import Mathlib.Data.List.Nodup
import OnionTunnel.Proofs.Network.Loopback

/-!
# The books balance

Books balance if every hop of a ready tunnel has a session at the owner, and a session and a link at
its node, and if there are no other sessions and links. After every run they do.
-/

namespace OnionTunnel

/-- Where the hop at a place of a tunnel passes cells on to. -/
def Tunnel.downstreamAt? (t : Tunnel) (k : Nat) : Option Downstream :=
  match t.mode with
  | .direct => none
  | .relayed => t.hops[k + 1]?.map fun h => ⟨h.address.canonical, h.link⟩

namespace Network

open Function SessionRegistry

variable {n : Nat} {S : Setting n} {now : Instant} {i : Fin n} {b : Books n} {id : UInt32}
  {L : Ledger n} {t : Line n} {net : Network n}

/-- A hop of a ready tunnel, by the owner, the tunnel's identifier and the position. -/
structure Place (n : Nat) where
  owner : Fin n
  tunnel : UInt32
  position : Nat

/-- The hop of a ready tunnel at a place, and the node where it is dialled. -/
structure HopAt (S : Setting n) (b : Books n) (p : Place n) (t : Tunnel) (h : OpenHop) (j : Fin n) :
    Prop where
  slot : (b p.owner).slot p.tunnel = some (.ready t)
  hop : t.hops[p.position]? = some h
  dialled : S.serviceAt? (dialledAt t.mode p.position h.address) = some ⟨j, .peers⟩

/-- A hop's sessions are established at both ends, and its link goes on to the next hop. -/
structure Booked (S : Setting n) (b : Books n) (p : Place n) (t : Tunnel) (h : OpenHop) (j : Fin n) :
    Prop extends HopAt S b p t h j where
  started : ∃ x, (b p.owner).session h.session = some x ∧
    x.handshake = ⟨.initiator, .established⟩
  accepted : ∃ y, (b j).session h.link = some y ∧ y.handshake = ⟨.responder, .established⟩ ∧
    y.peer = S.identity p.owner
  link : (b j).link h.link = some ⟨S.identity p.owner, t.downstreamAt? p.position⟩

/-- Every hop of a ready tunnel is on the books, and every session and every link on the books is
that of one hop. No identifier is reserved for a tunnel that is not ready. -/
structure Balanced (S : Setting n) (b : Books n) : Prop where
  hop : ∀ i id t k h, (b i).slot id = some (.ready t) → t.hops[k]? = some h →
    ∃ j, Booked S b ⟨i, id, k⟩ t h j
  session : ∀ j x, (b j).session x ≠ none →
    ∃! p : Place n, ∃ t h k, HopAt S b p t h k ∧ ((j, x) = (p.owner, h.session) ∨ (j, x) = (k, h.link))
  link : ∀ j x, (b j).link x ≠ none →
    ∃! p : Place n, ∃ t h, HopAt S b p t h j ∧ x = h.link
  settled : ∀ i id, (b i).slot id ≠ some .building

/-- Without ready tunnels there are no sessions and no links. -/
theorem Balanced.eq_none (h : Balanced S b) (hnone : ∀ i id t, (b i).slot id ≠ some (.ready t))
    (j : Fin n) (x : UInt32) : (b j).session x = none ∧ (b j).link x = none := by
  constructor
  · by_contra hsome
    obtain ⟨p, ⟨t, hop, k, hat, -⟩, -⟩ := h.session j x hsome
    exact hnone _ _ t hat.slot
  · by_contra hsome
    obtain ⟨p, ⟨t, hop, hat, -⟩, -⟩ := h.link j x hsome
    exact hnone _ _ t hat.slot

/-! ### From a closed ledger -/

/-- The leg of a tunnel in the ledger at a place. -/
def LegAt (L : Ledger n) (p : Place n) (t : Line n) (l : Leg n) : Prop :=
  L p.owner p.tunnel = some t ∧ t.legs[p.position]? = some l

theorem LegAt.mem {p : Place n} {l : Leg n} (h : LegAt L p t l) : l ∈ t.legs :=
  List.mem_of_getElem? h.2

/-- The tunnel stands whose leg is at a place. -/
theorem LegAt.upright {p : Place n} {l : Leg n} (h : LegAt L p t l) (hclosed : Closed S b L) :
    Upright S b p.owner t :=
  hclosed.upright _ _ t h.1

/-- No two places share an end. -/
theorem Sound.place_unique (h : Sound S b L) (hclosed : Closed S b L) {p p' : Place n}
    {t t' : Line n} {l l' : Leg n} (hl : LegAt L p t l) (hl' : LegAt L p' t' l') {e : End n}
    (hend : e ∈ l.ends p.owner) (hend' : e ∈ l'.ends p'.owner) : p = p' := by
  obtain ⟨i, id, k⟩ := p
  obtain ⟨i', id', k'⟩ := p'
  have hmem : e ∈ t.ends i :=
    (hl.upright hclosed).mem_ends.2 (List.mem_flatMap.2 ⟨l, hl.mem, hend⟩)
  have hmem' : e ∈ t'.ends i' :=
    (hl'.upright hclosed).mem_ends.2 (List.mem_flatMap.2 ⟨l', hl'.mem, hend'⟩)
  have htunnel : (i, id) = (i', id') := by
    by_contra hne
    exact h.apart i id t hl.1 i' id' t' hl'.1 hne e hmem hmem'
  obtain ⟨rfl, rfl⟩ := Prod.mk.inj htunnel
  obtain rfl := Option.some.inj (hl.1.symm.trans hl'.1)
  have hnodup := (List.nodup_flatMap.1 (hl.upright hclosed).nodup).2
  by_contra hne
  have hk : k ≠ k' := fun heq => hne (by rw [heq])
  obtain ⟨hlt, hget⟩ := List.getElem?_eq_some_iff.1 hl.2
  obtain ⟨hlt', hget'⟩ := List.getElem?_eq_some_iff.1 hl'.2
  simp only at hlt hget hlt' hget'
  rw [List.pairwise_iff_getElem] at hnodup
  obtain hlt'' | hlt'' := Nat.lt_or_gt_of_ne hk
  · refine hnodup k k' hlt hlt' hlt'' (a := e) ?_ ?_
    · rwa [hget]
    · rwa [hget']
  · refine hnodup k' k hlt' hlt hlt'' (a := e) ?_ ?_
    · rwa [hget']
    · rwa [hget]

/-- The hops of ready tunnels are those in the ledger. -/
theorem Sound.legAt (h : Sound S b L) {p : Place n} {tunnel : Tunnel} {hop : OpenHop}
    (hready : (b p.owner).slot p.tunnel = some (.ready tunnel))
    (hhop : tunnel.hops[p.position]? = some hop) :
    ∃ t l, LegAt L p t l ∧ tunnel = t.tunnel p.tunnel ∧ hop = l.hop := by
  obtain ⟨t, ht, rfl⟩ := h.ready hready
  simp only [Line.tunnel, List.getElem?_map, Option.map_eq_some_iff] at hhop
  obtain ⟨l, hl, rfl⟩ := hhop
  exact ⟨t, l, ⟨ht, hl⟩, rfl, rfl⟩

/-- Where a hop of a tunnel that stands passes cells on to. -/
theorem Upright.reached {p : Place n} (hstands : Upright S b p.owner t) {l : Leg n}
    (hl : LegAt L p t l) :
    Reached S b (S.identity p.owner) l ((t.tunnel p.tunnel).downstreamAt? p.position) := by
  unfold Tunnel.downstreamAt?
  cases hmode : t.mode with
  | direct =>
    have hroute := hstands.routes [l] (by
      rw [hmode]
      exact List.mem_map.2 ⟨l, hl.mem, rfl⟩)
    simp only [Line.tunnel, hmode]
    exact hroute.linked.1
  | relayed =>
    have hroute := hstands.routes t.legs (by simp [Network.routes, hmode])
    have htarget : ∀ l', t.legs[p.position + 1]? = some l' →
        l'.target = ⟨l'.hop.address.canonical, l'.hop.link⟩ := by
      intro l' hl'
      rw [Leg.target, hstands.dialled_eq _ l' hl', hmode]
      rfl
    have hnext : t.legs[p.position + 1]?.map Leg.target =
        (t.tunnel p.tunnel).hops[p.position + 1]?.map fun h =>
          ⟨h.address.canonical, h.link⟩ := by
      rw [Line.tunnel, List.getElem?_map]
      cases hl' : t.legs[p.position + 1]? with
      | none => rfl
      | some l' => exact congrArg some (htarget l' hl')
    simp only [Line.tunnel, hmode] at hnext ⊢
    rw [← hnext]
    exact hroute.linked.reached hl.2

theorem Sound.booked (h : Sound S b L) {p : Place n} (hstands : Upright S b p.owner t) {l : Leg n}
    (hl : LegAt L p t l) {f : Far n} (hfar : l.far? = some f) :
    Booked S b p (t.tunnel p.tunnel) l.hop f.node := by
  have hheld := hstands.held hl.mem
  have hf := hheld.far f hfar
  have hreached := hstands.reached hl
  unfold Reached at hreached
  simp only [hfar] at hreached
  constructor
  case toHopAt =>
    refine ⟨h.slot_eq hl.1, by simp [Line.tunnel, hl.2], ?_⟩
    rw [← hreached.1, hstands.dialled_eq _ l hl.2]
    rfl
  case started => exact ⟨l.near, hheld.near.started, hheld.near.handshake_eq⟩
  case accepted => exact ⟨f.session, hf.accepted, hf.handshake_eq, hf.peer_eq⟩
  case link => exact hreached.2

/-- The node where a hop in the ledger is dialled holds its end. -/
theorem Sound.node_eq (h : Sound S b L) {p : Place n} (hstands : Upright S b p.owner t) {l : Leg n}
    (hl : LegAt L p t l) {f : Far n} (hfar : l.far? = some f) {j : Fin n}
    (hat : HopAt S b p (t.tunnel p.tunnel) l.hop j) : j = f.node := by
  have hdialled := hat.dialled.symm.trans (h.booked hstands hl hfar).dialled
  simpa using hdialled

theorem Closed.far_some (h : Closed S b L) {p : Place n} {l : Leg n} (hl : LegAt L p t l) :
    ∃ f, l.far? = some f :=
  Option.ne_none_iff_exists'.1 (h.far _ _ t hl.1 l hl.mem)

/-- What a hop takes up at its owner or at its node is an end of its leg. -/
theorem Sound.mem_ends (h : Sound S b L) {p : Place n} (hstands : Upright S b p.owner t)
    {l : Leg n} (hl : LegAt L p t l) {f : Far n} (hfar : l.far? = some f) {j k : Fin n} {x : UInt32}
    (hat : HopAt S b p (t.tunnel p.tunnel) l.hop k)
    (hend : (j, x) = (p.owner, l.hop.session) ∨ (j, x) = (k, l.hop.link)) :
    (j, x) ∈ l.ends p.owner := by
  obtain heq | heq := hend
  · simp [Leg.ends, heq]
  · rw [h.node_eq hstands hl hfar hat] at heq
    simp [Leg.ends, Leg.farEnd?, hfar, heq]

theorem Closed.hop_of_session (h : Closed S b L) {j : Fin n} {x : UInt32}
    (hsome : (b j).session x ≠ none) :
    ∃ p t l f, LegAt L p t l ∧ l.far? = some f ∧
      ((j, x) = (p.owner, l.hop.session) ∨ (j, x) = (f.node, l.hop.link)) := by
  obtain ⟨i, id, t, ht, hend⟩ := h.taken j x hsome
  obtain ⟨l, hl, hend⟩ := List.mem_flatMap.1 ((h.upright i id t ht).mem_ends.1 hend)
  obtain ⟨k, hk⟩ := List.mem_iff_getElem?.1 hl
  have hat : LegAt L ⟨i, id, k⟩ t l := ⟨ht, hk⟩
  obtain ⟨f, hfar⟩ := h.far_some hat
  refine ⟨_, t, l, f, hat, hfar, ?_⟩
  simpa [Leg.ends, Leg.farEnd?, hfar] using hend

/-- The books balance under a sound and closed ledger. -/
theorem Sound.balanced (h : Sound S b L) (hclosed : Closed S b L) : Balanced S b where
  hop i id tunnel k hop hready hhop := by
    obtain ⟨t, l, hl, rfl, rfl⟩ := h.legAt (p := ⟨i, id, k⟩) hready hhop
    obtain ⟨f, hfar⟩ := hclosed.far_some hl
    exact ⟨f.node, h.booked (hl.upright hclosed) hl hfar⟩
  session j x hsome := by
    obtain ⟨p, t, l, f, hl, hfar, hend⟩ := hclosed.hop_of_session hsome
    have hstands := hl.upright hclosed
    have hat := (h.booked hstands hl hfar).toHopAt
    refine ⟨p, ⟨_, _, _, hat, hend⟩, ?_⟩
    rintro p' ⟨_, _, k', hat', hend'⟩
    obtain ⟨t', l', hl', rfl, rfl⟩ := h.legAt hat'.slot hat'.hop
    obtain ⟨f', hfar'⟩ := hclosed.far_some hl'
    exact h.place_unique hclosed hl' hl (h.mem_ends (hl'.upright hclosed) hl' hfar' hat' hend')
      (h.mem_ends hstands hl hfar hat hend)
  link j x hsome := by
    obtain ⟨p, t, l, f, hl, hfar, hend⟩ := hclosed.hop_of_session (h.linksHeld j x hsome)
    have hstands := hl.upright hclosed
    have hat := (h.booked hstands hl hfar).toHopAt
    obtain heq | heq := hend
    · -- The owner's end of a hop has no link.
      obtain ⟨rfl, rfl⟩ := Prod.mk.inj heq
      exact (hsome (hstands.unlinked l hl.mem)).elim
    · obtain ⟨rfl, rfl⟩ := Prod.mk.inj heq
      refine ⟨p, ⟨_, _, hat, rfl⟩, ?_⟩
      rintro p' ⟨_, _, hat', hx⟩
      obtain ⟨t', l', hl', rfl, rfl⟩ := h.legAt hat'.slot hat'.hop
      obtain ⟨f', hfar'⟩ := hclosed.far_some hl'
      exact h.place_unique hclosed hl' hl
        (h.mem_ends (hl'.upright hclosed) hl' hfar' hat' (.inr (by rw [hx])))
        (h.mem_ends hstands hl hfar hat (.inr rfl))
  settled := h.slot_ne_building

/-- What an owner may ask for so that the books balance: no hop is dialled where a session service
answers. -/
def Proper (S : Setting n) (_ : Fin n) (mode : TunnelMode) (hops : List Hop) : Prop :=
  Clear S mode 0 hops

/-- After every run of honest nodes the books balance, and every call that is allowed then comes to
its end. -/
theorem balanced_of_reaches (hS : S.Honest) (hinverts : ∀ i, (S.node i).registry.keypair.Inverts)
    (h : Reaches S (Proper S) net) :
    Balanced S net.books ∧ ∀ now i c, Allowed (Proper S) now net i c →
      ∃ net', (act i c.program).run now net = (some (), now, net') := by
  obtain ⟨hset, L, hsound, hclosed⟩ := h.ledger hS hinverts
  refine ⟨hsound.balanced (hclosed fun _ _ _ hproper => hproper), ?_⟩
  intro now i c hallowed
  obtain ⟨net', hrun, -⟩ := call_ends hS hinverts hset hsound
    (hset ▸ hallowed.discerning)
  exact ⟨net', hrun⟩

theorem loopHop_proper : Welcome loopback.setting .relayed [loopHop] ∧
    Proper loopback.setting 0 .relayed [loopHop] := by
  have hplace : ∀ k hop, [loopHop][k]? = some hop →
      loopback.setting.serviceAt? (dialledAt .relayed k hop.address) = some ⟨0, .peers⟩ ∧
        hop = loopHop := by
    intro k hop hk
    obtain ⟨rfl, rfl⟩ : k = 0 ∧ loopHop = hop := by simpa [List.getElem?_singleton] using hk
    exact ⟨serviceAt?_loopback .peers, rfl⟩
  have hwelcome : Welcome loopback.setting .relayed [loopHop] := by
    intro k hop hk
    obtain ⟨hdest, rfl⟩ := hplace k hop hk
    refine ⟨_, hdest, by simp, ?_, fun _ => rfl⟩
    rw [setting_loopback]
    rfl
  refine ⟨hwelcome, ?_⟩
  intro k hop hk j
  rw [Nat.zero_add, (hplace k hop hk).1]
  simp

/-- The books balance after a node has built a tunnel through itself. -/
theorem balanced_of_reaches_loopback :
    ∃ net : Network 1, ∃ id t, Reaches loopback.setting (Proper loopback.setting) net ∧
      (net.books 0).slot id = some (.ready t) ∧ t.hops ≠ [] ∧ Balanced loopback.setting net.books := by
  obtain ⟨hwelcome, hproper⟩ := loopHop_proper
  obtain ⟨net, id, legs, hostkey, hreaches, -, hne, -, hbuilt⟩ :=
    loopback_build _ hproper (by simp) hwelcome (by simp)
  refine ⟨net, id, _, hreaches, hbuilt.ready, by simpa using hne, ?_⟩
  exact (balanced_of_reaches loopback_honest (fun j => (loopback_fit j).inverts) hreaches).1

/-- The session service of the node, with its host spelled as a mapped one. -/
def mappedHop : Hop := ⟨.v6 0xffff0a000001 7005 0 0, Keypair.ofMersenne.hostkey⟩

/-- Hops whose address is registered are given with the address of peers. -/
def Named (S : Setting n) (_ : Fin n) (_ : TunnelMode) (hops : List Hop) : Prop :=
  ∀ hop ∈ hops, ∀ s, S.serviceAt? hop.address = some s → s.service = .peers

theorem mappedHop_named : Welcome loopback.setting .relayed [loopHop, mappedHop] ∧
    Named loopback.setting 0 .relayed [loopHop, mappedHop] := by
  have hcanonical : mappedHop.address.canonical = loopAddress 0 .sessions := by decide
  have hwelcome : Welcome loopback.setting .relayed [loopHop, mappedHop] := by
    intro k hop hk
    obtain _ | _ | k := k
    · obtain rfl : loopHop = hop := by simpa using hk
      refine ⟨_, serviceAt?_loopback .peers, by simp, ?_, fun _ => rfl⟩
      rw [setting_loopback]
      rfl
    · obtain rfl : mappedHop = hop := by simpa using hk
      refine ⟨⟨0, .sessions⟩, ?_, by simp, ?_, by simp⟩
      · rw [dialledAt, hcanonical]
        exact serviceAt?_loopback .sessions
      · rw [setting_loopback]
        rfl
    · simp at hk
  refine ⟨hwelcome, ?_⟩
  intro hop hmem s hs
  obtain rfl | hmem := List.mem_cons.1 hmem
  · obtain rfl := Option.some.inj (hs.symm.trans (serviceAt?_loopback .peers))
    rfl
  · obtain rfl := List.mem_singleton.1 hmem
    have hnone : loopback.endpoints.get? mappedHop.address = none := by
      refine get?_ofNodes_of_ne apart_loopAddress _ fun i s heq => ?_
      cases s <;> cases heq
    have hend := Setting.endpoint_of_serviceAt? hs
    cases hnone.symm.trans hend

/-- A hop that is given by another spelling of a session service's address leaves a session behind
that belongs to no tunnel: when the tunnel through it is torn down, the books do not balance. -/
theorem not_balanced_of_named :
    ∃ net : Network 1, Reaches loopback.setting (Named loopback.setting) net ∧
      ¬ Balanced loopback.setting net.books := by
  obtain ⟨hwelcome, hnamed⟩ := mappedHop_named
  obtain ⟨net, id, legs, hostkey, hreaches, hset, -, haddress, hbuilt⟩ :=
    loopback_build _ hnamed (by simp) hwelcome (by simp)
  have hlen : legs.length = 2 := by simpa using congrArg List.length haddress
  obtain ⟨l₀, l, rfl⟩ := List.length_eq_two.1 hlen
  obtain ⟨-, hl⟩ : l₀.hop.address = loopHop.address ∧ l.hop.address = mappedHop.address := by
    simpa using haddress
  -- Past the first hop the address is dialled in its canonical form, where no peer answers.
  have hfar : l.far? = none := by
    have hreached := (hbuilt.routes [l₀, l] (by simp [routes])).linked.reached (k := 1) rfl
    have hdialled : l.dialled = loopAddress 0 .sessions := by
      rw [hbuilt.dialled_eq 1 l rfl, hl]
      decide
    cases hfar : l.far? with
    | none => rfl
    | some f =>
      unfold Reached at hreached
      simp only [hfar, hdialled, serviceAt?_loopback] at hreached
      simp at hreached
  obtain ⟨j, hleft, hnot⟩ := hbuilt.loose l (by simp) hfar
  obtain ⟨net', hreaches', -, hbooks⟩ :=
    hreaches.teardown hset loopback_honest hbuilt.ready rfl hbuilt.toStands
  refine ⟨net', hreaches', fun hbalanced => ?_⟩
  have hnone : ∀ i id t, (net'.books i).slot id ≠ some (.ready t) := by
    intro i x t
    have hslot := hbuilt.leaks.slot i
    simp only [Books.without_apply, Books.setSlot_apply] at hslot
    rw [hbooks]
    simp only [Books.without_apply, Books.setSlot_apply, hslot]
    split
    · simp
    · rw [loopback_blank.slot]
      simp
  have hgone := (hbalanced.eq_none hnone j l.hop.link).1
  rw [hbooks] at hgone
  simp only [Books.without_apply, Books.setSlot_apply, if_neg hnot] at hgone
  exact hleft hgone

end Network

end OnionTunnel

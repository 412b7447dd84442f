import OnionTunnel.Proofs.Network.Ledger
import OnionTunnel.Proofs.Network.LinkCount

/-!
# Runs of a network

The owners of tunnels build, use and tear down, one call after another. Every call comes to its end,
and after each one a sound ledger tells what stands on the books.

## Implementation notes

There are two kinds of runs. In the ones that arise by calls, any payload may be sent through any
tunnel. Hops are given with the hostkeys of the peers that answer where they are dialled. An address
is passed on to the next hop in its canonical form, so one where nobody answers may still lead to
peers past the first hop. If these have another hostkey, it is assumed that the handshake which is
sealed for the one given does not open to something else there (`Discerning`).

The hops of a direct tunnel do not pass cells on to each other, so a payload for several of them gets
to the first hop in a layer of the last one. What the first hop would do if the layer came off is not
known, and the books need not balance then. So in the runs whose ledger is closed it is assumed that
the first hop does not take this layer off (`Astray`).
-/

namespace OnionTunnel

/-- What the owner of tunnels calls. -/
inductive Call where
  | build (mode : TunnelMode) (hops : List Hop)
  | send (id : UInt32) (payload : Bytes)
  | receive (id : UInt32) (layered : Bytes)
  | teardown (id : UInt32)

/-- What a node does on a call, whatever comes of it. -/
def Call.program : Call → Program Node Unit
  | .build mode hops => do let _ ← (Node.build mode hops).run
  | .send id payload => do let _ ← (Node.send id payload).run
  | .receive id layered => do let _ ← (Node.receive id layered).run
  | .teardown id => do let _ ← (Node.teardown id).run

namespace Network

open Function SessionRegistry

variable {n : Nat} {S : Setting n} {V : Network n → Prop} {now : Instant} {depth : Nat}
  {i : Fin n} {b b' : Books n}
  {id : UInt32} {L : Ledger n} {t : Line n} {net : Network n}

/-- The outermost layer of the cell that is made of a payload for a tunnel does not come off under
the keys of the session with the first hop. -/
def Astray (now : Instant) (net : Network n) (i : Fin n) (t : Tunnel) (payload : Bytes) : Prop :=
  ∀ first x command cell rest, t.first? = some first →
    (net.books i).session first.session = some x →
    (Message.tunnelData Node.endLink payload).encode = .ok command →
    (act i (Node.encryptLayers t.layers command).run).run now net = (some (.ok cell), rest) →
    ∀ inner, Sealed.unwrap x.sharedKey x.localMac cell ≠ .ok inner

/-- Where the peers that answer to a hop have another hostkey than was given for it, what the owner
seals for the one given opens to nothing else than was sealed. -/
def Discerning (S : Setting n) (now : Instant) (i : Fin n) (mode : TunnelMode) (hops : List Hop)
    (net : Network n) : Prop :=
  ∀ k hop, hops[k]? = some hop → ∀ j,
    S.serviceAt? (dialledAt mode k hop.address) = some ⟨j, .peers⟩ →
      hop.hostkey ≠ (S.node j).registry.keypair.hostkey →
        Faithful (net.node i).registry now hop.hostkey (S.node j).registry.keypair

/-- A call is allowed if the hops to build through are admitted and peers are discerning all along,
and if a payload for several hops that are no route goes astray. -/
def Allowed (admits : Fin n → TunnelMode → List Hop → Prop) (now : Instant) (net : Network n)
    (i : Fin n) : Call → Prop
  | .build mode hops => admits i mode hops ∧
      (act i (Call.build mode hops).program).Sees (Discerning net.setting now i mode hops) now net
  | .send id payload => ∀ t, (net.books i).slot id = some (.ready t) → ¬ t.IsRoute →
      Astray now net i t payload
  | _ => True

/-- A network without sessions, links and tunnels. -/
structure Blank (net : Network n) : Prop where
  session : ∀ i id, (net.books i).session id = none
  link : ∀ i id, (net.books i).link id = none
  slot : ∀ i id, (net.books i).slot id = none

/-- Every hop is given with the hostkey of the peers that answer where it is dialled, if any do. -/
def Genuine (S : Setting n) (mode : TunnelMode) (hops : List Hop) : Prop :=
  ∀ k hop, hops[k]? = some hop → ∀ j,
    S.serviceAt? (dialledAt mode k hop.address) = some ⟨j, .peers⟩ →
      hop.hostkey = (S.node j).registry.keypair.hostkey

/-- Hops are genuine that are given by canonical addresses where nothing answers, or the peers of a
node with the hostkey given. -/
theorem genuine_of_canonical {mode : TunnelMode} {hops : List Hop}
    (hcanonical : ∀ hop ∈ hops, hop.address.canonical = hop.address)
    (hoffered : ∀ hop ∈ hops, S.serviceAt? hop.address = none ∨
      ∃ j, S.serviceAt? hop.address = some ⟨j, .peers⟩ ∧
        hop.hostkey = (S.node j).registry.keypair.hostkey) : Genuine S mode hops := by
  intro k hop hk j hdest
  have hmem := List.mem_of_getElem? hk
  have hdialled : dialledAt mode k hop.address = hop.address := by
    unfold dialledAt
    split
    · exact hcanonical hop hmem
    · rfl
  rw [hdialled] at hdest
  obtain hnone | ⟨j', hpeers, hown⟩ := hoffered hop hmem
  · cases hnone.symm.trans hdest
  · obtain ⟨⟩ := Option.some.inj (hpeers.symm.trans hdest)
    exact hown

/-- Where hops are genuine, peers are discerning. -/
theorem Genuine.discerning {mode : TunnelMode} {hops : List Hop} (h : Genuine S mode hops)
    {α : Type} (p : Activity n α) : p.Sees (Discerning S now i mode hops) now net :=
  Timed.Sees.always (fun _ k hop hk j hdest hne => (hne (h k hop hk j hdest)).elim) _ _

/-- What becomes of a blank network by calls that come to their end. -/
inductive Reaches (S : Setting n) (admits : Fin n → TunnelMode → List Hop → Prop) :
    Network n → Prop
  | blank {net : Network n} (hset : net.setting = S) (hblank : net.Blank) : Reaches S admits net
  | call {net net' : Network n} {now later : Instant} {i : Fin n} {c : Call}
      (h : Reaches S admits net) (hallowed : Allowed admits now net i c)
      (hrun : (act i c.program).run now net = (some (), later, net')) : Reaches S admits net'

/-- A call is entrusted if the hops to build through are genuine. Where a hop is given with another
hostkey than the peers that answer to it have, these are to be discerning. -/
def Entrusted (now : Instant) (net : Network n) (i : Fin n) : Call → Prop
  | .build mode hops => Genuine net.setting mode hops ∨
      (act i (Call.build mode hops).program).Sees (Discerning net.setting now i mode hops) now net
  | _ => True

/-- What arises from a blank network by entrusted calls that come to their end. -/
inductive Arises (S : Setting n) : Network n → Prop
  | blank {net : Network n} (hset : net.setting = S) (hblank : net.Blank) : Arises S net
  | call {net net' : Network n} {now later : Instant} {i : Fin n} {c : Call} (h : Arises S net)
      (hentrusted : Entrusted now net i c)
      (hrun : (act i c.program).run now net = (some (), later, net')) : Arises S net'

/-! ### What a call leads to -/

/-- The sessions of a tunnel are those that its layers are for. -/
theorem Hung.layers (h : Hung S b i t.mode t.legs t.strands) (id : UInt32) :
    ∃ xs : List Session, (t.tunnel id).layers.map (b i).session = xs.map some ∧
      ∀ x ∈ xs, x.Usable := by
  have hrelayed := sessions_of_held h.near
  have husable := usable_of_held h.near
  cases hmode : t.mode with
  | direct =>
    refine ⟨t.legs.map (·.near), ?_, by simpa using husable⟩
    rw [relayOrder, List.map_reverse, List.map_reverse, List.reverse_inj] at hrelayed
    simp only [Tunnel.layers, Line.tunnel, hmode]
    exact hrelayed
  | relayed =>
    refine ⟨(t.legs.map (·.near)).reverse, ?_, husable⟩
    simp only [Tunnel.layers, Line.tunnel, hmode]
    exact hrelayed

/-- No strand of a tunnel is longer than there are links. -/
theorem Hung.length_le {mode : TunnelMode} {legs : List (Leg n)} {strands : List (List (End n))}
    (h : Hung S b i mode legs strands) : ∀ ends ∈ strands, ends.length ≤ b.linkCount := by
  intro ends hends
  have hall : strands.flatten.length ≤ b.linkCount :=
    Books.length_le_linkCount h.nodup fun _ _ hend => (h.hangs.ne_none hend).2
  exact Nat.le_trans (List.sublist_flatten_of_mem hends).length_le hall

/-- A tunnel whose hops pass cells on is one route. -/
theorem Lined.isRoute {tunnel : Tunnel} {legs : List (Leg n)} (h : Lined S b i tunnel.mode legs)
    (hhops : tunnel.hops = legs.map (·.hop)) (hroute : tunnel.IsRoute) :
    Route S b i legs ∧ tunnel.layers = relayOrder tunnel.hops ∧ legs.length ≤ 256 := by
  cases hmode : tunnel.mode with
  | relayed =>
    refine ⟨h.routes legs (by simp [Network.routes, hmode]), ?_, h.short hmode⟩
    simp only [Tunnel.layers, hmode]
  | direct =>
    have hone : legs.length = 1 := by simpa [Tunnel.IsRoute, hmode, hhops] using hroute
    obtain ⟨l, rfl⟩ := List.length_eq_one_iff.1 hone
    refine ⟨h.routes [l] (by simp [Network.routes, hmode]), ?_, by simp⟩
    simp only [Tunnel.layers, Tunnel.sessions, hmode, hhops]
    rfl

/-- Layers that are taken off for a tunnel change nothing on the books. -/
theorem does_receive_any (hS : S.Honest) (hsound : Sound S b L) (id : UInt32) (blob : Bytes) :
    Does S V now (depth + 1) i b (Node.receive id blob) fun _ b' => b' = b := by
  by_cases hready : ∃ tunnel, (b i).slot id = some (.ready tunnel)
  · obtain ⟨tunnel, hready⟩ := hready
    obtain ⟨t, ht, rfl⟩ := hsound.ready hready
    obtain ⟨xs, hids, hxs⟩ := (hsound.listed i id t ht).hung.layers id
    refine (does_tunnel hready).bind ?_ ?_
    · rintro _ b₁ ⟨⟨⟩, heq⟩
      rw [heq]
      refine (does_decryptLayers hS.own hids hxs blob).mono ?_
      rintro _ _ ⟨-, rfl⟩
      rfl
    · rintro _ _ ⟨⟨⟩, _⟩
  · refine (does_tunnel_absent fun tunnel h => hready ⟨tunnel, h⟩).bind ?_ ?_
    · rintro _ _ ⟨⟨_, ⟨⟩⟩, _⟩
    · rintro _ _ ⟨-, rfl⟩
      rfl

theorem does_send_absent (h : ∀ tunnel, (b i).slot id ≠ some (.ready tunnel)) (payload : Bytes) :
    Does S V now depth i b (Node.send id payload) fun res b' => (∃ e, res = .error e) ∧ b' = b := by
  refine (does_tunnel_absent h).bind ?_ ?_
  · rintro _ _ ⟨⟨_, ⟨⟩⟩, _⟩
  · rintro e _ ⟨-, rfl⟩
    exact ⟨⟨e, rfl⟩, rfl⟩

/-- A payload leaves sessions, links and tunnels as they were. -/
def Kept (b b' : Books n) : Prop :=
  ∀ j, (b' j).session = (b j).session ∧ (b' j).link = (b j).link ∧ (b' j).slot = (b j).slot

theorem Kept.refl (b : Books n) : Kept b b := fun _ => ⟨rfl, rfl, rfl⟩

/-- A payload that is sent through a route leaves sessions, links and tunnels as they were. -/
theorem does_send_route (hS : S.Honest) (hdepth : 260 ≤ depth) (hsound : Sound S b L)
    (ht : L i id = some t) (hroute : (t.tunnel id).IsRoute) (payload : Bytes) :
    Does S V now depth i b (Node.send id payload) fun _ b' => Kept b b' := by
  have hlisted := hsound.listed i id t ht
  obtain ⟨hroute, hlayers, hshort⟩ := (hlisted.upright hroute).isRoute rfl hroute
  exact (does_send hS.own hdepth (hsound.slot_eq ht) hlayers rfl hlisted.nonempty hshort hroute
    payload).mono fun _ _ hwent => hwent.kept

theorem notified_cons (mode : TunnelMode) (hop : OpenHop) (hops : List OpenHop) :
    ∃ others, Node.notified mode (hop :: hops) = hop :: others := by
  cases mode with
  | direct => exact ⟨hops, rfl⟩
  | relayed => exact ⟨[], rfl⟩

/-- Whatever becomes of a payload that is sent through a tunnel, the strands of the tunnel are left as
they were or longer. -/
theorem does_send_any (hS : S.Honest) (hdepth : b.linkCount + 3 ≤ depth) (hsound : Sound S b L)
    (ht : L i id = some t) (payload : Bytes) :
    Does S V now depth i b (Node.send id payload) fun _ b' =>
      ∃ strands, Restrung S b i t strands b' := by
  have hlisted := hsound.listed i id t ht
  have hhung := hlisted.hung
  have hrefl : ∃ strands, Restrung S b i t strands b := ⟨_, .refl hhung hsound.linksHeld⟩
  obtain ⟨l, rest, hlegs⟩ := List.exists_cons_of_ne_nil hlisted.nonempty
  have hfirst : (t.tunnel id).first? = some l.hop := by
    simp [Tunnel.first?, Line.tunnel, hlegs]
  obtain ⟨others, hhops⟩ := notified_cons t.mode l.hop (rest.map (·.hop))
  rw [← List.map_cons, ← hlegs] at hhops
  refine (does_tunnel (hsound.slot_eq ht)).bind ?_ ?_
  · rintro _ b₁ ⟨⟨⟩, heq⟩
    rw [heq]
    simp only [hfirst]
    cases hcommand : (Message.tunnelData Node.endLink payload).encode with
    | error e => exact does_ofFrame_error rfl hrefl
    | ok command =>
      apply does_ofFrame rfl
      obtain ⟨xs, hids, hxs⟩ := hhung.layers id
      have hhangs := hhung.hangs
      rw [hhops] at hhangs
      obtain ⟨ends, strands, hstrand, -, hstrands⟩ := List.forall₂_cons_left_iff.1 hhangs
      have hnodup := hhung.nodup
      rw [hstrands, List.flatten_cons] at hnodup
      have hshort := hhung.length_le ends (by simp [hstrands])
      obtain ⟨d, rfl⟩ : ∃ d, depth = d + 3 + ends.length := ⟨depth - 3 - ends.length, by omega⟩
      rw [show d + 3 + ends.length = d + 2 + ends.length + 1 by omega]
      refine (does_encryptLayers hS.own hids hxs command).bind ?_ ?_
      · rintro cell _ ⟨-, rfl⟩
        rw [show d + 2 + ends.length + 1 = d + 3 + ends.length by omega]
        refine (does_sendCell_stray hS hsound.linksHeld hstrand hnodup.of_append_left cell).mono ?_
        intro _ b' hstrayed
        exact hstrayed.restrung hhung hhops hstrands
      · rintro e _ ⟨-, rfl⟩
        exact hrefl
  · rintro _ _ ⟨⟨⟩, _⟩

/-! ### Calls in a network -/

theorem le_depth (net : Network n) : 260 ≤ net.depth :=
  Nat.le_trans (by decide) (Nat.le_add_right (2 * maxFrame) _)

/-- Messages are followed as deep as there are links, and deeper. -/
theorem linkCount_le_depth (net : Network n) : net.books.linkCount + 3 ≤ net.depth := by
  rw [depth_eq, linkCount_books, Nat.add_comm]
  exact Nat.add_le_add_right (by decide) _

/-- A program that leads somewhere whatever the depth ends there in a network. -/
theorem act_of_leads_of_sees {α : Type} {p : Program Node α} {Q : α → Books n → Prop}
    (hset : net.setting = S) (hsees : (act i p).Sees V now net)
    (h : Leads S V now net.depth i net.books p Q) :
    ∃ a net', (act i p).run now net = (some a, now, net') ∧ net'.setting = S ∧ Q a net'.books := by
  obtain ⟨a, net', hends, hset', hQ⟩ := h net hset rfl hsees.2
  exact ⟨a, net', hends.run_eq, hset', hQ⟩

theorem act_of_leads (now : Instant) {α : Type} {p : Program Node α} {Q : α → Books n → Prop}
    (hset : net.setting = S) (h : Leads S (fun _ => True) now net.depth i net.books p Q) :
    ∃ a net', (act i p).run now net = (some a, now, net') ∧ net'.setting = S ∧ Q a net'.books :=
  act_of_leads_of_sees hset (Timed.Sees.always (fun _ => trivial) _ _) h

/-- What a node does first and what it does with the result. -/
theorem ends_perform_bind {α β : Type} {sender : Sender n} {p : Program Node α}
    {f : α → Program Node β} {net₁ net₂ : Network n} {a : α} {c : β}
    (hp : (perform sender i p).Ends now net a net₁)
    (hf : (perform sender i (f a)).Ends now net₁ c net₂) :
    (perform sender i (p >>= f)).Ends now net c net₂ := by
  have hseq : perform sender i (p >>= f) = _ := perform_bind sender i p f
  rw [hseq]
  exact hp.bind hf

/-- What a node does first and what it does with the result, unless it fails. -/
theorem ends_bind_ok {α β : Type} {sender : Sender n} {x : Node.Action α} {f : α → Node.Action β}
    {net₁ net₂ : Network n} {a : α} {res : Except TunnelError β}
    (hx : (perform sender i x.run).Ends now net (.ok a) net₁)
    (hf : (perform sender i (f a).run).Ends now net₁ res net₂) :
    (perform sender i (x >>= f).run).Ends now net res net₂ :=
  ends_perform_bind hx hf

/-- A look of a node at itself. -/
theorem ends_get {α : Type} {sender : Sender n} {f : Node → Node.Action α} {net' : Network n}
    {res : Except TunnelError α}
    (h : (perform sender i (f (net.node i)).run).Ends now net res net') :
    (perform sender i (get >>= f).run).Ends now net res net' :=
  .read h

/-- The ready tunnel of an owner is looked up and nothing else happens. -/
theorem ends_tunnel {sender : Sender n} {tunnel : Tunnel}
    (h : (net.books i).slot id = some (.ready tunnel)) :
    (perform sender i (Node.tunnel id).run).Ends now net (.ok tunnel) net := by
  have hget : (net.node i).tunnels.get? id = some tunnel := by
    have hslot : (net.node i).tunnels.slots.get? id = some (.ready tunnel) := h
    simp only [TunnelTable.get?, hslot]
  apply ends_get
  simp only [hget]
  exact .done

/-- A cell whose outermost layer does not come off at the first hop of a tunnel is refused there. -/
theorem Stands.does_sendCell_refused (hS : S.Honest) (depth : Nat) {mode : TunnelMode}
    {legs : List (Leg n)} (h : Stands S b i mode legs) {l : Leg n} (hl : legs[0]? = some l) {cell : Bytes}
    (hrefused : ∀ inner, ¬ Sealed.Peels [l.near.outward] cell inner) :
    Does S V now (depth + 2) i b (Node.sendCell l.hop.address l.hop.link cell) fun res b' =>
      (∃ e, res = .error e) ∧ b' = b := by
  have hmem := List.mem_of_getElem? hl
  have hdialled : l.dialled = l.hop.address := by
    rw [h.dialled_eq 0 l hl]
    cases mode <;> rfl
  rw [← hdialled]
  cases hfar : l.far? with
  | some f =>
    obtain ⟨r, hr, hlr⟩ := mem_routes_of_mem mode hmem
    obtain ⟨k, hk⟩ := List.mem_iff_getElem?.1 hlr
    have hreached := (h.routes r hr).linked.reached hk
    unfold Reached at hreached
    simp only [hfar] at hreached
    have hf := (h.held hmem).far f hfar
    refine Network.does_sendCell_refused hS.own hreached.1 hreached.2 hf.accepted hf.usable ?_
    rw [← hf.paired.forth]
    exact fun _ => hrefused
  | none =>
    obtain ⟨j, hdest⟩ := h.sessions_of_far hmem hfar
    exact does_sendCell_sessions hdest _ cell

/-- Nothing comes of a payload that goes astray. -/
theorem ends_send_astray (hS : net.setting.Honest) (hsound : Sound net.setting net.books L)
    (ht : L i id = some t) (hstands : Stands net.setting net.books i t.mode t.legs) {payload : Bytes}
    (hastray : Astray now net i (t.tunnel id) payload) :
    ∃ e net', (perform (exchange net.depth) i (Node.send id payload).run).Ends now net
      (.error e) net' ∧ net'.setting = net.setting ∧ net'.books = net.books := by
  have hready := hsound.slot_eq ht
  obtain ⟨l, rest, hlegs⟩ := List.exists_cons_of_ne_nil (hsound.listed i id t ht).nonempty
  have hl : t.legs[0]? = some l := by simp [hlegs]
  have hfirst : (t.tunnel id).first? = some l.hop := by
    simp [Tunnel.first?, Line.tunnel, hlegs]
  obtain ⟨d, hd⟩ : ∃ d, net.depth = d + 2 := ⟨net.depth - 2, by have := le_depth net; omega⟩
  -- The cell is made in this very network, so what is assumed of it applies.
  have hmade : ∀ command, (Message.tunnelData Node.endLink payload).encode = .ok command →
      ∃ e net', (perform (exchange net.depth) i
        (Node.encryptLayers (t.tunnel id).layers command >>=
          Node.sendCell l.hop.address l.hop.link).run).Ends now net (.error e) net' ∧
        net'.setting = net.setting ∧ net'.books = net.books := by
    intro command hcommand
    obtain ⟨xs, hids, hxs⟩ := (hsound.listed i id t ht).hung.layers id
    have hencrypted : Does net.setting (fun _ => True) now (d + 1 + 1) i net.books
        (Node.encryptLayers (t.tunnel id).layers command) _ :=
      does_encryptLayers hS.own hids hxs command
    obtain ⟨res, net₁, hends, hset, hres, hbooks⟩ :=
      hencrypted net rfl rfl (Timed.Sees.always (fun _ => trivial) _ _)
    rw [← show net.depth = d + 1 + 1 from hd] at hends
    obtain ⟨cell, rfl, -⟩ | ⟨⟨e, rfl⟩, -⟩ := hres
    · have hrefused : ∀ inner, ¬ Sealed.Peels [l.near.outward] cell inner := by
        rintro inner ⟨_, hinner, ⟨⟩⟩
        have hstarted := (hstands.held (List.mem_of_getElem? hl)).near.started
        exact hastray l.hop l.near command cell _ hfirst hstarted hcommand hends.run_eq _ hinner
      obtain ⟨_, net', hends', hset', ⟨e, rfl⟩, hbooks'⟩ :=
        hstands.does_sendCell_refused hS d hl hrefused net₁ hset hbooks
          (Timed.Sees.always (fun _ => trivial) _ _)
      rw [← hd] at hends'
      exact ⟨e, net', ends_perform_bind hends hends', hset', hbooks'⟩
    · exact ⟨e, net₁, ends_perform_bind hends .done, hset, hbooks⟩
  have hcommand : ∃ e net', (perform (exchange net.depth) i
      (Node.ofFrame (Message.tunnelData Node.endLink payload).encode >>= fun command =>
        Node.encryptLayers (t.tunnel id).layers command >>=
          Node.sendCell l.hop.address l.hop.link).run).Ends now net (.error e) net' ∧
        net'.setting = net.setting ∧ net'.books = net.books := by
    cases hcommand : (Message.tunnelData Node.endLink payload).encode with
    | error e => exact ⟨_, net, .done, rfl, rfl⟩
    | ok command => exact hmade command hcommand
  obtain ⟨e, net', hends, hkept⟩ := hcommand
  refine ⟨e, net', ends_bind_ok (ends_tunnel hready) ?_, hkept⟩
  simp only [hfirst]
  exact hends

/-! ### The ledger of a run -/

/-- There is a sound ledger after a call, which is closed like the one before. -/
def Accounted (S : Setting n) (b : Books n) (L : Ledger n) (clear : Prop) (b' : Books n) : Prop :=
  ∃ L', Sound S b' L' ∧ (clear → Closed S b L → Closed S b' L')

theorem Kept.accounted {clear : Prop} (h : Kept b b') (hsound : Sound S b L) :
    Accounted S b L clear b' :=
  ⟨L, hsound.congr (fun j x _ => by rw [(h j).1]) (fun j x => by rw [(h j).2.1])
    (fun j => (h j).2.2), fun _ hclosed => hclosed.congr (fun j => (h j).1) fun j => (h j).2.1⟩

/-- Without session services where its hops are dialled, every hop of a tunnel has an end. -/
theorem Stands.far_of_clear {mode : TunnelMode} {legs : List (Leg n)} {hops : List Hop}
    (h : Stands S b i mode legs) (hclear : Clear S mode 0 hops)
    (haddress : legs.map (·.hop.address) = hops.map (·.address)) :
    ∀ l ∈ legs, l.far? ≠ none := by
  intro l hl hfar
  obtain ⟨j, hdest⟩ := h.sessions_of_far hl hfar
  have hprefix : legs.map (·.hop.address) <+: hops.map (·.address) := ⟨[], by simp [haddress]⟩
  obtain ⟨k, hop, -, hhop, hdialled⟩ := h.dialled_hop hprefix hl
  rw [hdialled] at hdest
  exact hclear k hop hhop j (by rwa [Nat.zero_add])

theorem leads_call {α : Type} {x : Node.Action α} {P : Books n → Prop}
    (h : Does S V now depth i b x fun _ b' => P b') :
    Leads S V now depth i b (do let _ ← x.run) fun _ b' => P b' :=
  Leads.bind h fun _ _ hP => Leads.pure hP

theorem leads_build (hS : S.Honest) (hinverts : (S.node i).registry.keypair.Inverts)
    (hdepth : 260 ≤ depth) (hsound : Sound S b L) {mode : TunnelMode} {hops : List Hop}
    (htrusted : AllTrusted S V now i mode 0 hops) :
    Leads S V now depth i b (Call.build mode hops).program fun _ b' =>
      Accounted S b L (Clear S mode 0 hops) b' := by
  apply Leads.bind (does_build hS hinverts hdepth hsound.linksHeld htrusted)
  rintro _ b' (⟨id, legs, hostkey, rfl, hfree, hne, haddress, hbuilt⟩ | ⟨⟨e, rfl⟩, hleaks, htidy, -⟩)
  · obtain ⟨strands, hhung, hflat⟩ := hbuilt.toStands.hung
    have hupright : Upright S b' i ⟨mode, legs, hostkey, strands⟩ := ⟨hbuilt.toStands, hflat⟩
    have hlisted : Listed S b' i id ⟨mode, legs, hostkey, strands⟩ :=
      ⟨hne, hhung, fun _ => hupright⟩
    refine Leads.pure ⟨_, hsound.enter hlisted hupright hbuilt, ?_⟩
    intro hclear hclosed
    exact hclosed.enter hsound hfree hbuilt hupright
      (hbuilt.toStands.far_of_clear hclear haddress)
  · refine Leads.pure ⟨L, hsound.congr hleaks.session hleaks.link hleaks.slot, ?_⟩
    intro hclear hclosed
    rwa [htidy hclear]

theorem leads_teardown (hS : S.Honest) (hdepth : b.linkCount + 1 ≤ depth) (hsound : Sound S b L)
    (id : UInt32) :
    Leads S V now depth i b (Call.teardown id).program fun _ b' => Accounted S b L True b' := by
  by_cases hready : ∃ tunnel, (b i).slot id = some (.ready tunnel)
  · obtain ⟨tunnel, hready⟩ := hready
    obtain ⟨t, ht, rfl⟩ := hsound.ready hready
    have hhung := (hsound.listed i id t ht).hung
    obtain ⟨d, rfl⟩ : ∃ d, depth = d + 1 := ⟨depth - 1, by omega⟩
    refine Leads.bind (does_teardown hS.own hready rfl rfl hhung fun ends hends => ?_) ?_
    · have := hhung.length_le ends hends
      omega
    · rintro _ _ ⟨-, rfl⟩
      exact Leads.pure ⟨_, hsound.strike ht, fun _ hclosed => hclosed.strike hsound ht⟩
  · refine Leads.bind (does_teardown_absent fun tunnel h => hready ⟨tunnel, h⟩) ?_
    rintro _ _ ⟨-, rfl⟩
    exact Leads.pure ⟨L, hsound, fun _ hclosed => hclosed⟩

/-- Where peers are discerning, hops are trusted. -/
theorem allTrusted_discerning (hinverts : ∀ j, (S.node j).registry.keypair.Inverts) (now : Instant)
    (i : Fin n) (mode : TunnelMode) (hops : List Hop) :
    AllTrusted S (Discerning S now i mode hops) now i mode 0 hops := by
  intro k hop hk j hdest net _ hseen
  rw [Nat.zero_add] at hdest
  by_cases hown : hop.hostkey = (S.node j).registry.keypair.hostkey
  · rw [hown]
    exact faithful_of_inverts _ now (hinverts j)
  · exact hseen k hop hk j hdest hown

/-- What keeps a ledger closed over a call: no hop to build through is dialled where a session service
answers, and a payload for several hops that are no route goes astray. -/
def Orderly (S : Setting n) (now : Instant) (net : Network n) (i : Fin n) : Call → Prop
  | .build mode hops => Clear S mode 0 hops
  | .send id payload => ∀ t, (net.books i).slot id = some (.ready t) → ¬ t.IsRoute →
      Astray now net i t payload
  | _ => True

/-- A payload that is sent comes to its end with a ledger again, and all tunnels are as they were. -/
theorem send_ends (hS : S.Honest) (hset : net.setting = S) (hsound : Sound S net.books L)
    (now : Instant) (i : Fin n) (id : UInt32) (payload : Bytes) :
    ∃ net', (act i (Call.send id payload).program).run now net = (some (), now, net') ∧
      net'.setting = S ∧ (∀ j, (net'.books j).slot = (net.books j).slot) ∧
      Accounted S net.books L (Orderly S now net i (.send id payload)) net'.books := by
  by_cases hready : ∃ tunnel, (net.books i).slot id = some (.ready tunnel)
  · obtain ⟨tunnel, hready⟩ := hready
    obtain ⟨t, ht, rfl⟩ := hsound.ready hready
    by_cases hroute : (t.tunnel id).IsRoute
    · obtain ⟨_, net', hrun, hset', hkept⟩ := act_of_leads now hset
        (leads_call (does_send_route hS (le_depth net) hsound ht hroute payload))
      exact ⟨net', hrun, hset', fun j => (hkept j).2.2, hkept.accounted hsound⟩
    · by_cases hclosed : Closed S net.books L ∧ Astray now net i (t.tunnel id) payload
      · subst hset
        obtain ⟨e, net', hends, hset', hbooks⟩ := ends_send_astray hS hsound ht
          (hclosed.1.upright i id t ht).toStands hclosed.2
        have hall := ends_perform_bind (f := fun _ => (Pure.pure () : Program Node Unit)) hends .done
        refine ⟨net', hall.run_eq, hset', ?_⟩
        rw [hbooks]
        exact ⟨fun _ => rfl, (Kept.refl _).accounted hsound⟩
      · obtain ⟨_, net', hrun, hset', strands, hrestrung⟩ := act_of_leads now hset
          (leads_call (does_send_any hS (linkCount_le_depth net) hsound ht payload))
        refine ⟨net', hrun, hset', hrestrung.slot, _, hsound.restring ht hroute hrestrung, ?_⟩
        exact fun horderly hclosed' => (hclosed ⟨hclosed', horderly _ hready hroute⟩).elim
  · obtain ⟨_, net', hrun, hset', hkept⟩ := act_of_leads now hset
      (leads_call ((does_send_absent (fun tunnel h => hready ⟨tunnel, h⟩) payload).mono
        fun _ _ hkept => hkept.2))
    refine ⟨net', hrun, hset', ?_⟩
    rw [hkept]
    exact ⟨fun _ => rfl, (Kept.refl _).accounted hsound⟩

/-- A call comes to its end with a ledger again, if peers are discerning all along a build. -/
theorem call_ends (hS : S.Honest) (hinverts : ∀ j, (S.node j).registry.keypair.Inverts)
    (hset : net.setting = S) (hsound : Sound S net.books L) {c : Call}
    (hdiscerning : ∀ mode hops, c = .build mode hops →
      (act i c.program).Sees (Discerning S now i mode hops) now net) :
    ∃ net', (act i c.program).run now net = (some (), now, net') ∧ net'.setting = S ∧
      Accounted S net.books L (Orderly S now net i c) net'.books := by
  have hdepth := linkCount_le_depth net
  cases c with
  | build mode hops =>
    obtain ⟨_, net', hrun, hset', haccounted⟩ := act_of_leads_of_sees hset
      (hdiscerning mode hops rfl)
      (leads_build hS (hinverts i) (le_depth net) hsound
        (allTrusted_discerning hinverts now i mode hops))
    exact ⟨net', hrun, hset', haccounted⟩
  | send id payload =>
    obtain ⟨net', hrun, hset', -, haccounted⟩ := send_ends hS hset hsound now i id payload
    exact ⟨net', hrun, hset', haccounted⟩
  | receive id layered =>
    obtain ⟨d, hd⟩ : ∃ d, net.depth = d + 1 := ⟨net.depth - 1, by omega⟩
    obtain ⟨_, net', hrun, hset', hkept⟩ := act_of_leads now hset (hd ▸
      leads_call (does_receive_any hS hsound id layered))
    refine ⟨net', hrun, hset', ?_⟩
    rw [hkept]
    exact (Kept.refl _).accounted hsound
  | teardown id =>
    obtain ⟨_, net', hrun, hset', haccounted⟩ := act_of_leads now hset
      (leads_teardown hS (Nat.le_trans (by omega) hdepth) hsound id)
    exact ⟨net', hrun, hset', haccounted⟩

/-- Peers are discerning along an allowed build. -/
theorem Allowed.discerning {admits : Fin n → TunnelMode → List Hop → Prop} {c : Call}
    (h : Allowed admits now net i c) (mode : TunnelMode) (hops : List Hop)
    (hc : c = .build mode hops) :
    (act i c.program).Sees (Discerning net.setting now i mode hops) now net := by
  subst hc
  exact h.2

/-- After every run there is a sound ledger. It is closed if no hop was dialled where a session
service answers. -/
theorem Reaches.ledger {admits : Fin n → TunnelMode → List Hop → Prop} (h : Reaches S admits net)
    (hS : S.Honest) (hinverts : ∀ i, (S.node i).registry.keypair.Inverts) :
    net.setting = S ∧ ∃ L, Sound S net.books L ∧
      ((∀ i mode hops, admits i mode hops → Clear S mode 0 hops) → Closed S net.books L) := by
  induction h with
  | blank hset hblank =>
    obtain ⟨hsound, hclosed⟩ := sound_empty hblank.session hblank.link hblank.slot
    exact ⟨hset, _, hsound, fun _ => hclosed⟩
  | @call net net₁ now later i c h hallowed hrun ih =>
    obtain ⟨hset, L, hsound, hclosed⟩ := ih
    obtain ⟨net', hrun', hset', L', hsound', hclosed'⟩ := call_ends hS hinverts hset hsound
      (hset ▸ hallowed.discerning)
    obtain ⟨-, rfl⟩ : _ ∧ net' = _ := by simpa [hrun] using hrun'.symm
    refine ⟨hset', L', hsound', fun hclear => hclosed' ?_ (hclosed hclear)⟩
    cases c with
    | build mode hops => exact hclear i mode hops hallowed.1
    | send id payload => exact hallowed
    | receive id layered => trivial
    | teardown id => trivial

/-- Peers are discerning along an entrusted build. -/
theorem Entrusted.discerning {c : Call} (h : Entrusted now net i c) (mode : TunnelMode)
    (hops : List Hop) (hc : c = .build mode hops) :
    (act i c.program).Sees (Discerning net.setting now i mode hops) now net := by
  subst hc
  obtain hgenuine | hdiscerning := h
  · exact hgenuine.discerning _
  · exact hdiscerning

/-- Whatever has arisen by entrusted calls, there is a sound ledger. -/
theorem Arises.ledger (h : Arises S net) (hS : S.Honest)
    (hinverts : ∀ i, (S.node i).registry.keypair.Inverts) :
    net.setting = S ∧ ∃ L, Sound S net.books L := by
  induction h with
  | blank hset hblank =>
    exact ⟨hset, _, (sound_empty hblank.session hblank.link hblank.slot).1⟩
  | call h hentrusted hrun ih =>
    obtain ⟨hset, L, hsound⟩ := ih
    obtain ⟨net', hrun', hset', L', hsound', -⟩ := call_ends hS hinverts hset hsound
      (hset ▸ hentrusted.discerning)
    obtain ⟨-, rfl⟩ : _ ∧ net' = _ := by simpa [hrun] using hrun'.symm
    exact ⟨hset', L', hsound'⟩

/-- An entrusted call comes to its end. -/
theorem Arises.goes_on (h : Arises S net) (hS : S.Honest)
    (hinverts : ∀ i, (S.node i).registry.keypair.Inverts) (now : Instant) (i : Fin n) (c : Call)
    (hentrusted : Entrusted now net i c) :
    ∃ net', (act i c.program).run now net = (some (), now, net') ∧ Arises S net' := by
  obtain ⟨hset, L, hsound⟩ := h.ledger hS hinverts
  obtain ⟨net', hrun, -⟩ := call_ends hS hinverts hset hsound (hset ▸ hentrusted.discerning)
  exact ⟨net', hrun, h.call hentrusted hrun⟩

end Network

end OnionTunnel

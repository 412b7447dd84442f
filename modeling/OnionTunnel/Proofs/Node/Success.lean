import OnionTunnel.Proofs.Node.Tunnels
import OnionTunnel.Proofs.Rsa.Inversion

/-!
# Builds that succeed

A hop is opened if it is dialled where a node answers with the keypair whose hostkey was given, and
if both nodes have identifiers left. So a tunnel through such hops is built.
-/

namespace OnionTunnel

namespace Network

open Function SessionRegistry

variable {n : Nat} {S : Setting n} {V : Network n → Prop} {now : Instant} {depth : Nat}
  {i : Fin n} {b b' b₀ : Books n}
  {mode : TunnelMode} {legs : List (Leg n)} {hops : List Hop}

/-- A hop whose hostkey is that of the node where it is dialled is opened if both nodes have
identifiers left. -/
theorem not_unopened {hop : Hop} {s : ServiceOf n}
    (hdest : S.serviceAt? (dialled legs hop.address) = some s) (hservice : s.service ≠ .clients)
    (hhostkey : hop.hostkey = (S.node s.owner).registry.keypair.hostkey)
    (hnear : (S.node i).registry.keypair.Fit) (hfar : (S.node s.owner).registry.keypair.Fit)
    (hid : ¬ Spent S V b i) (hlink : ∀ id x, ¬ Spent S V (b.setSession i id (some x)) s.owner)
    (hlast : ∀ l, legs.getLast? = some l → l.far? ≠ none) (hshort : legs.length ≤ 255) :
    ¬ Unopened S V b i legs hop := by
  rintro (hstart | ⟨id, x, handshake, -, hoffered, hunreached⟩)
  · obtain ⟨key, hkey, hsize⟩ := hfar.taken
    refine hid (hstart ?_ ⟨key, hhostkey ▸ hkey, hsize⟩)
    rw [hhostkey]
    exact Nat.le_trans hfar.length_le (by decide)
  · obtain ⟨keyBlock, macBlock, hblocks, ⟨key, hkey, hkeyBlock, hmacBlock⟩, -⟩ := hoffered.blocks
    rw [hhostkey] at hkey
    have hbound : (S.node i).registry.keypair.hostkey.length + handshake.length ≤ 2052 := by
      have := hnear.length_le
      have := hoffered.length_le
      omega
    have hmax : maxPayload = 65531 := rfl
    refine hlink id x (hunreached ?_ s hdest hservice ?_ ⟨keyBlock, macBlock, hblocks, hnear.taken,
      ⟨x.sharedKey, hfar.inverts key _ _ hkey hkeyBlock, ?_⟩,
      x.localMac, hfar.inverts key _ _ hkey hmacBlock⟩)
    · intro l hl
      refine ⟨hlast l hl, hshort, ?_⟩
      have hoverhead : Sealed.overhead = 48 := rfl
      rw [hoverhead]
      omega
    · omega
    · rw [hoffered.length_sharedKey]
      decide

/-- Every hop of a list is dialled, after others, where a node answers with the keypair whose
hostkey was given. Only past the last one may a session service answer in person. -/
def Welcome (S : Setting n) (mode : TunnelMode) (hops : List Hop) : Prop :=
  ∀ k hop, hops[k]? = some hop → ∃ s, S.serviceAt? (dialledAt mode k hop.address) = some s ∧
    s.service ≠ .clients ∧ hop.hostkey = (S.node s.owner).registry.keypair.hostkey ∧
    (k + 1 < hops.length → s.service = .peers)

theorem Welcome.own (h : Welcome S mode hops) {k : Nat} {hop : Hop} (hk : hops[k]? = some hop)
    {j : Fin n} (hdest : S.serviceAt? (dialledAt mode k hop.address) = some ⟨j, .peers⟩) :
    hop.hostkey = (S.node j).registry.keypair.hostkey := by
  obtain ⟨s, hs, -, hhostkey, -⟩ := h k hop hk
  obtain rfl := Option.some.inj (hs.symm.trans hdest)
  exact hhostkey

/-- Hops that answer with the right keypairs are trusted. -/
theorem Welcome.trusted (h : Welcome S mode hops)
    (hinverts : ∀ j, (S.node j).registry.keypair.Inverts) (i : Fin n) :
    AllTrusted S V now i mode 0 hops := by
  intro k hop hk j hdest net _ _
  rw [Nat.zero_add] at hdest
  rw [h.own hk hdest]
  exact faithful_of_inverts _ now (hinverts j)

/-- Hops that are opened before the last one are at nodes. -/
theorem Welcome.far (h : Welcome S mode hops) (hlined : Lined S b i mode legs)
    (hlt : legs.length < hops.length)
    (haddress : legs.map (·.hop.address) <+: hops.map (·.address)) : ∀ l ∈ legs, l.far? ≠ none := by
  intro l hl hfar
  obtain ⟨j, hsessions⟩ := hlined.sessions_of_far hl hfar
  obtain ⟨k, hop, hk, hhop, hdialled⟩ := hlined.dialled_hop haddress hl
  obtain ⟨s, hdest, -, -, hpeers⟩ := h k hop hhop
  rw [hdialled, hdest] at hsessions
  have hservice := hpeers (by omega)
  rw [Option.some.inj hsessions] at hservice
  cases hservice

/-- A hop that is dialled where the right node answers is opened after those that are open, while
these nodes find identifiers. -/
theorem Welcome.not_unopened (h : Welcome S mode hops)
    (hfit : ∀ j, (S.node j).registry.keypair.Fit) (hlined : Lined S b i mode legs) {hop : Hop}
    (hhop : hops[legs.length]? = some hop)
    (haddress : legs.map (·.hop.address) <+: hops.map (·.address))
    (hshort : mode = .relayed → legs.length ≤ 255) (hid : ¬ Spent S V b i)
    (hlink : ∀ id x j, ¬ Spent S V (b.setSession i id (some x)) j) :
    ¬ Unopened S V b i (routeTo mode legs) hop := by
  obtain ⟨hlt, -⟩ := List.getElem?_eq_some_iff.1 hhop
  obtain ⟨s, hdest, hservice, hhostkey, -⟩ := h legs.length hop hhop
  have hfar := h.far hlined hlt haddress
  refine Network.not_unopened (s := s) ?_ hservice hhostkey (hfit i) (hfit s.owner) hid
    (fun id x => hlink id x s.owner) ?_ ?_
  · rw [dialled_routeTo]
    exact hdest
  · intro l hl
    apply hfar l
    cases mode with
    | direct => simp [routeTo] at hl
    | relayed => exact List.mem_of_getLast? hl
  · cases mode with
    | direct => simp [routeTo]
    | relayed => exact hshort rfl

/-- Sessions in use at a node while a tunnel is built. -/
theorem Built.used (h : Built S b₀ i mode legs b) (hfar : ∀ l ∈ legs, l.far? ≠ none)
    {used : List UInt32} {j : Fin n} (hused : ∀ x, (b₀ j).session x ≠ none → x ∈ used) {x : UInt32}
    (hsome : (b j).session x ≠ none) : x ∈ used ++ (legEnds i legs).map Prod.snd := by
  by_cases hend : (j, x) ∈ legEnds i legs
  · exact List.mem_append_right _ (List.mem_map.2 ⟨_, hend, rfl⟩)
  · refine List.mem_append_left _ (hused x ?_)
    rw [← h.tidy hfar]
    simpa [hend] using hsome

theorem length_legEnds (i : Fin n) (legs : List (Leg n)) :
    (legEnds i legs).length ≤ 2 * legs.length := by
  induction legs with
  | nil => exact Nat.le_refl _
  | cons l rest ih =>
      have hends : (l.ends i).length ≤ 2 := by
        cases h : l.farEnd? <;> simp [Leg.ends, h]
      rw [show legEnds i (l :: rest) = l.ends i ++ legEnds i rest from rfl, List.length_append,
        List.length_cons]
      omega

/-- While no more sessions are on a node's books than its pool can do without, it is not spent. -/
theorem not_spent_of_supplies {j : Fin n} {m : Nat}
    (h : IdPool.Supplies (S.node j).registry.draw (S.node j).registry.attempts m)
    (used : List UInt32) (hlen : used.length ≤ m) (hused : ∀ x, (b j).session x ≠ none → x ∈ used) :
    ¬ Spent S V b j := by
  rintro ⟨net, rfl, rfl, -, hspent⟩
  exact hspent (spare_of_supplies h used hlen hused)

/-- A tunnel through hops that answer with the right keypairs is built. -/
theorem does_build_welcome (hS : S.Honest) (hfit : ∀ j, (S.node j).registry.keypair.Fit)
    (hdepth : 260 ≤ depth) (hlinks : LinksHeld b) (hne : hops ≠ []) (hwelcome : Welcome S mode hops)
    (hshort : mode = .relayed → hops.length ≤ 256) {used : Fin n → List UInt32}
    (hused : ∀ j x, (b j).session x ≠ none → x ∈ used j)
    (hsupply : ∀ j, IdPool.Supplies (S.node j).registry.draw (S.node j).registry.attempts
      ((used j).length + 2 * hops.length))
    (htunnel : ¬ Unnumbered S V b i) :
    Does S V now depth i b (Node.build mode hops) fun res b' =>
      ∃ id legs hostkey, res = .ok id ∧ (b i).slot id = none ∧ legs ≠ [] ∧
        legs.map (·.hop.address) = hops.map (·.address) ∧
        Built S (b.setSlot i id (some (.ready ⟨id, mode, legs.map (·.hop), hostkey⟩))) i mode legs
          b' := by
  refine (does_build hS (hfit i).inverts hdepth hlinks
    (hwelcome.trusted (fun j => (hfit j).inverts) i)).mono ?_
  rintro res b' (hbuilt | ⟨-, -, -, hempty | hunnumbered |
    ⟨id, -, legs, hop, b₁, hhop, hbuilt, haddress, hunopened⟩⟩)
  · exact hbuilt
  · exact (hne hempty).elim
  · exact (htunnel hunnumbered).elim
  · obtain ⟨hlt, -⟩ := List.getElem?_eq_some_iff.1 hhop
    have hleading : legs.map (·.hop.address) <+: hops.map (·.address) := by
      rw [haddress]
      exact (List.take_prefix _ hops).map _
    have hfar := hwelcome.far hbuilt.toLined hlt hleading
    have hends := length_legEnds i legs
    refine (hwelcome.not_unopened hfit hbuilt.toLined hhop hleading ?_ ?_ ?_ hunopened).elim
    · intro hmode
      have := hshort hmode
      omega
    · refine not_spent_of_supplies (hsupply i)
        (used i ++ (legEnds i legs).map Prod.snd) ?_ ?_
      · simp only [List.length_append, List.length_map]
        omega
      · intro x hx
        exact hbuilt.used hfar (by simpa using hused i) hx
    · intro id' x j
      refine not_spent_of_supplies (hsupply j)
        (id' :: (used j ++ (legEnds i legs).map Prod.snd)) ?_ ?_
      · simp only [List.length_cons, List.length_append, List.length_map]
        omega
      · intro z hz
        simp only [Books.setSession_apply] at hz
        split at hz
        · next heq => simp [(Prod.mk.inj heq).2]
        · exact List.mem_cons_of_mem _ (hbuilt.used hfar (by simpa using hused j) hz)

end Network

end OnionTunnel

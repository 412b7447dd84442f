import OnionTunnel.Proofs.Node.Success

/-!
# Tunnels that are chained

A tunnel that has been built is chained: each of its hops agrees with the owner on the keys of their
session, and the links of a relayed tunnel lead from the first hop through all others to the last.
Hops are given in the order in which they are to be chained. Where they are settled, and nodes have
identifiers left, the only thing that keeps a tunnel from being built is that it is relayed through
more hops than one cell has layers.

## Implementation notes

`Plentiful` is asked of the networks that the build sees, and not of all that it could see. So
nothing is said about how identifiers are drawn.
-/

namespace OnionTunnel

/-- The address and the identity that a hop is given by. -/
def Hop.name (h : Hop) : Address × Identity := (h.address, h.identity)

/-- The address and the identity under which an open hop is known. -/
def OpenHop.name (h : OpenHop) : Address × Identity := (h.address, h.identity)

namespace Network

open Function SessionRegistry

variable {n : Nat} {S : Setting n} {V : Network n → Prop} {now : Instant} {depth : Nat}
  {i : Fin n} {b b' b₀ : Books n} {peer : Identity}
  {mode : TunnelMode} {legs : List (Leg n)} {l : Leg n} {hop : Hop} {hops : List Hop}

/-! ### Trails -/

/-- What the links of a peer say leads from one hop on through hops, in order, and stops at the last
of them. -/
inductive Trail (S : Setting n) (b : Books n) (peer : Identity) :
    Downstream → List Downstream → Prop
  | stop {d : Downstream} {j : Fin n} (hplace : S.serviceAt? d.address = some ⟨j, .peers⟩)
      (hlink : (b j).link d.link = some ⟨peer, none⟩) : Trail S b peer d [d]
  | next {d d' : Downstream} {j : Fin n} {rest : List Downstream}
      (hplace : S.serviceAt? d.address = some ⟨j, .peers⟩)
      (hlink : (b j).link d.link = some ⟨peer, some d'⟩) (h : Trail S b peer d' rest) :
      Trail S b peer d (d :: rest)

/-- There is no more than one trail from a hop. -/
theorem Trail.unique {d : Downstream} {ds ds' : List Downstream} (h : Trail S b peer d ds)
    (h' : Trail S b peer d ds') : ds = ds' := by
  induction h generalizing ds' with
  | stop hplace hlink =>
      cases h' with
      | stop => rfl
      | next hplace' hlink' =>
          obtain ⟨⟩ := Option.some.inj (hplace.symm.trans hplace')
          cases hlink.symm.trans hlink'
  | next hplace hlink _ ih =>
      cases h' with
      | stop hplace' hlink' =>
          obtain ⟨⟩ := Option.some.inj (hplace.symm.trans hplace')
          cases hlink.symm.trans hlink'
      | next hplace' hlink' hrest =>
          obtain ⟨⟩ := Option.some.inj (hplace.symm.trans hplace')
          obtain ⟨⟩ := Option.some.inj (hlink.symm.trans hlink')
          rw [ih hrest]

/-- The links of a route that has its far ends are a trail through all its hops. -/
theorem Linked.trail {rest : List (Leg n)} (h : Linked S b peer (l :: rest))
    (hfar : ∀ l' ∈ l :: rest, l'.far? ≠ none) :
    Trail S b peer l.target ((l :: rest).map Leg.target) := by
  induction rest generalizing l with
  | nil =>
      obtain ⟨f, hf⟩ := Option.ne_none_iff_exists'.1 (hfar l (by simp))
      have hreached := h.1
      simp only [Reached, hf] at hreached
      exact Trail.stop hreached.1 hreached.2
  | cons l' rest ih =>
      obtain ⟨f, hf⟩ := Option.ne_none_iff_exists'.1 (hfar l (by simp))
      have hreached := h.1
      simp only [Reached, hf] at hreached
      apply Trail.next hreached.1 hreached.2
      apply ih h.2
      intro l'' hl''
      exact hfar l'' (List.mem_cons_of_mem l hl'')

/-! ### Hops that are given and hops that are open -/

/-- A hop is given by the address of a node's peers, in its canonical form, and the node's
hostkey. -/
structure Settled (S : Setting n) (hop : Hop) : Prop where
  canonical : hop.address.canonical = hop.address
  home : ∃ j, S.serviceAt? hop.address = some ⟨j, .peers⟩ ∧
    hop.hostkey = (S.node j).registry.keypair.hostkey

/-- A hop that was given is open, and its node agrees with the owner on the keys of an established
session. -/
structure Agreed (S : Setting n) (b : Books n) (i : Fin n) (hop : Hop) (h : OpenHop) : Prop where
  address_eq : h.address = hop.address
  identity_eq : h.identity = hop.identity
  ends : ∃ j x y, S.serviceAt? hop.address = some ⟨j, .peers⟩ ∧
    (b i).session h.session = some x ∧ x.handshake = ⟨.initiator, .established⟩ ∧
    (b j).session h.link = some y ∧ y.handshake = ⟨.responder, .established⟩ ∧
    y.peer = S.identity i ∧ x.Paired y

/-- A tunnel is chained through hops that were given. -/
structure Chained (S : Setting n) (b : Books n) (i : Fin n) (mode : TunnelMode) (hops : List Hop)
    (t : Tunnel) : Prop where
  mode_eq : t.mode = mode
  agreed : List.Forall₂ (Agreed S b i) hops t.hops
  distinct : (t.hops.map (·.session)).Nodup
  destination : hops.getLast?.map (·.hostkey) = some t.hostkey
  trail : mode = .relayed → ∃ first, t.hops.head? = some first ∧
    Trail S b (S.identity i) first.target (t.hops.map (·.target))

/-- A settled hop is dialled at its address wherever it stands in a tunnel. -/
theorem Settled.dialledAt_eq (h : Settled S hop) (mode : TunnelMode) (k : Nat) :
    dialledAt mode k hop.address = hop.address := by
  cases mode with
  | direct => rfl
  | relayed =>
    cases k with
    | zero => rfl
    | succ k => exact h.canonical

/-- Settled hops are dialled where nodes answer with the right keypairs. -/
theorem welcome_of_settled (h : ∀ hop ∈ hops, Settled S hop) : Welcome S mode hops := by
  intro k hop hk
  have hsettled := h hop (List.mem_of_getElem? hk)
  obtain ⟨j, hplace, hhostkey⟩ := hsettled.home
  rw [hsettled.dialledAt_eq]
  exact ⟨⟨j, .peers⟩, hplace, by simp, hhostkey, fun _ => rfl⟩

/-- No settled hop is dialled where a session service answers. -/
theorem clear_of_settled (h : ∀ hop ∈ hops, Settled S hop) : Clear S mode 0 hops := by
  intro k hop hk j hsessions
  have hsettled := h hop (List.mem_of_getElem? hk)
  obtain ⟨j', hplace, -⟩ := hsettled.home
  rw [hsettled.dialledAt_eq, hplace] at hsessions
  cases hsessions

/-! ### Lines that are chained -/

/-- Peers answer where a hop with a far end is dialled. -/
theorem Lined.place (h : Lined S b i mode legs) (hl : l ∈ legs) {f : Far n}
    (hfar : l.far? = some f) : S.serviceAt? l.dialled = some ⟨f.node, .peers⟩ := by
  obtain ⟨r, hr, hlr⟩ := mem_routes_of_mem mode hl
  obtain ⟨k, hk⟩ := List.mem_iff_getElem?.1 hlr
  have hreached := (h.routes r hr).linked.reached hk
  simp only [Reached, hfar] at hreached
  exact hreached.1

/-- An open hop that was given where it is settled is dialled there. -/
theorem Lined.dialled_settled (h : Lined S b i mode legs) {k : Nat} (hl : legs[k]? = some l)
    (hname : l.hop.name = hop.name) (hsettled : Settled S hop) : l.dialled = hop.address := by
  have haddress : l.hop.address = hop.address := (Prod.mk.inj hname).1
  rw [h.dialled_eq k l hl, haddress]
  exact hsettled.dialledAt_eq mode k

/-- The node of an open hop agrees with the owner if the hop was given where it is settled. -/
theorem Lined.agreed (h : Lined S b i mode legs) {k : Nat} (hl : legs[k]? = some l)
    (hname : l.hop.name = hop.name) (hsettled : Settled S hop) {f : Far n}
    (hfar : l.far? = some f) : Agreed S b i hop l.hop := by
  have hmem := List.mem_of_getElem? hl
  have hheld := h.held hmem
  have hf := hheld.far f hfar
  obtain ⟨haddress, hidentity⟩ := Prod.mk.inj hname
  constructor
  · exact haddress
  · exact hidentity
  · refine ⟨f.node, l.near, f.session, ?_, hheld.near.started, hheld.near.handshake_eq,
      hf.accepted, hf.handshake_eq, hf.peer_eq, hf.paired⟩
    rw [← h.dialled_settled hl hname hsettled]
    exact h.place hmem hfar

/-- The sessions of an owner with the hops of a tunnel are different. -/
theorem Lined.nodup_sessions (h : Lined S b i mode legs) :
    ((legs.map (·.hop)).map (·.session)).Nodup := by
  have hnear : (nearEnds i legs).Nodup := h.nodup.sublist (nearEnds_sublist i legs)
  have hpairs : nearEnds i legs = ((legs.map (·.hop)).map (·.session)).map (Prod.mk i) := by
    simp [nearEnds]
  rw [hpairs] at hnear
  exact hnear.of_map (Prod.mk i)

/-- The open hops that were given first are open at the addresses that were given first. -/
theorem leading_of_named {k : Nat}
    (h : legs.map (·.hop.name) = (hops.take k).map Hop.name) :
    legs.map (·.hop.address) <+: hops.map (·.address) := by
  have hfst := congrArg (List.map Prod.fst) h
  rw [List.map_map, List.map_map] at hfst
  have haddress : legs.map (·.hop.address) = (hops.take k).map (·.address) := hfst
  rw [haddress]
  exact (List.take_prefix k hops).map _

/-- Open hops that were given where they are settled make a chained tunnel. -/
theorem Lined.chained (h : Lined S b i mode legs)
    (hnamed : legs.map (·.hop.name) = hops.map Hop.name) (hsettled : ∀ hop ∈ hops, Settled S hop)
    {destination : Hop} (hlast : hops.getLast? = some destination) (id : UInt32) :
    Chained S b i mode hops ⟨id, mode, legs.map (·.hop), destination.hostkey⟩ := by
  have hleading : legs.map (·.hop.address) <+: hops.map (·.address) :=
    leading_of_named (k := hops.length) (by rwa [List.take_length])
  have hfar := h.far_of_clear (clear_of_settled hsettled) hleading
  have hat : ∀ {k : Nat} {l : Leg n}, legs[k]? = some l →
      ∃ hop, hops[k]? = some hop ∧ l.hop.name = hop.name ∧ Settled S hop := by
    intro k l hl
    have hk := congrArg (·[k]?) hnamed
    simp only [List.getElem?_map, hl, Option.map_some] at hk
    obtain ⟨hop, hhop, hname⟩ := Option.map_eq_some_iff.1 hk.symm
    exact ⟨hop, hhop, hname.symm, hsettled hop (List.mem_of_getElem? hhop)⟩
  have htarget : ∀ l ∈ legs, l.target = l.hop.target := by
    intro l hl
    obtain ⟨k, hk⟩ := List.mem_iff_getElem?.1 hl
    obtain ⟨hop, -, hname, hhome⟩ := hat hk
    rw [Leg.target, OpenHop.target, h.dialled_settled hk hname hhome, (Prod.mk.inj hname).1]
  constructor
  case mode_eq => rfl
  case agreed =>
    have hlength : hops.length = legs.length := by simpa using (congrArg List.length hnamed).symm
    apply List.forall₂_iff_get.2
    refine ⟨by simpa using hlength, ?_⟩
    intro k hk hk'
    have hlt : k < legs.length := hlength ▸ hk
    obtain ⟨hop, hhop, hname, hhome⟩ := hat (List.getElem?_eq_getElem hlt)
    obtain ⟨f, hf⟩ := Option.ne_none_iff_exists'.1 (hfar legs[k] (List.getElem_mem hlt))
    rw [List.getElem?_eq_getElem hk, Option.some.injEq] at hhop
    subst hhop
    simpa using h.agreed (List.getElem?_eq_getElem hlt) hname hhome hf
  case distinct => exact h.nodup_sessions
  case destination => rw [hlast]; rfl
  case trail =>
    intro hmode
    have hroute := h.routes legs (by simp [Network.routes, hmode])
    cases legs with
    | nil =>
        have hnil : hops = [] := by simpa using hnamed.symm
        rw [hnil] at hlast
        cases hlast
    | cons l rest =>
        refine ⟨l.hop, rfl, ?_⟩
        have htrail := hroute.linked.trail hfar
        have hall : (l :: rest).map Leg.target = ((l :: rest).map (·.hop)).map (·.target) := by
          rw [List.map_map]
          exact List.map_congr_left htarget
        rwa [hall, htarget l (by simp)] at htrail

/-! ### Building -/

/-- Every node finds an identifier for a session and one for a tunnel. -/
def Plentiful (net : Network n) : Prop :=
  ∀ j, (net.node j).registry.Spare ∧ (net.node j).tunnels.Spare

theorem not_spent_of_plentiful (b : Books n) (j : Fin n) : ¬ Spent S Plentiful b j := by
  rintro ⟨net, -, -, hseen, hspent⟩
  exact hspent (hseen j).1

theorem not_unnumbered_of_plentiful (b : Books n) (j : Fin n) : ¬ Unnumbered S Plentiful b j := by
  rintro ⟨net, -, -, hseen, hspent⟩
  exact hspent (hseen j).2

/-- The hops that were given first are open, and no tunnels have changed. -/
structure Along (S : Setting n) (b₀ : Books n) (i : Fin n) (mode : TunnelMode) (hops : List Hop)
    (legs : List (Leg n)) (b : Books n) : Prop extends Lined S b i mode legs where
  named : legs.map (·.hop.name) = (hops.take legs.length).map Hop.name
  slot : ∀ j, (b j).slot = (b₀ j).slot

theorem Along.snoc (h : Along S b₀ i mode hops legs b) (hhop : hops[legs.length]? = some hop)
    (hopens : Opens S b i (routeTo mode legs) hop l b') :
    Along S b₀ i mode hops (legs ++ [l]) b' where
  toLined := h.toLined.snoc hopens
  named := map_take_snoc hhop (Prod.ext hopens.address_eq hopens.identity_eq) h.named
  slot j := (hopens.slot j).trans (h.slot j)

/-- Some hop of a list was not opened after those before it, and the error tells its place. -/
def Halted (S : Setting n) (V : Network n → Prop) (b₀ : Books n) (i : Fin n) (mode : TunnelMode)
    (hops : List Hop) (e : TunnelError) : Prop :=
  ∃ legs hop b cause, e = .buildFailed legs.length cause ∧ hops[legs.length]? = some hop ∧
    Along S b₀ i mode hops legs b ∧ Unopened S V b i (routeTo mode legs) hop

/-- Hops are opened in the order in which they are given, all of them or those before the first one
that cannot be opened. -/
theorem does_openHops_along (hS : S.Own) (hinverts : (S.node i).registry.keypair.Inverts)
    (hdepth : 260 ≤ depth)
    (hplain : ∀ k hop, hops[k]? = some hop → S.Unscripted (dialledAt mode k hop.address))
    (htrusted : AllTrusted S V now i mode 0 hops) :
    Does S V now depth i b (Node.openHops mode [] hops) fun res b' =>
      (∀ j, (b' j).slot = (b j).slot) ∧
      ((∃ legs, res = .ok (legs.map (·.hop)) ∧ Lined S b' i mode legs ∧
        legs.map (·.hop.name) = hops.map Hop.name) ∨
      ∃ e, res = .error e ∧ Halted S V b i mode hops e) := by
  refine (does_openHops_of hops [] (I := Along S b i mode hops)
    (F := fun legs b' => (∀ j, (b' j).slot = (b j).slot) ∧ ∃ hop b₁,
      hops[legs.length]? = some hop ∧ Along S b i mode hops legs b₁ ∧
        Unopened S V b₁ i (routeTo mode legs) hop)
    ?_ rfl ⟨.nil S b i mode, rfl, fun _ => rfl⟩ (Nat.zero_le _)).mono ?_
  · intro legs hop b₁ hhop halong
    refine (halong.does_openHop hS hinverts hdepth (hplain _ hop hhop) htrusted hhop).mono ?_
    rintro _ b' (⟨l, rfl, hopens⟩ | ⟨herror, rfl, hunopened⟩)
    · exact .inl ⟨l, rfl, halong.snoc hhop hopens⟩
    · refine .inr ⟨herror, (halong.leads_release hS hdepth).mono ?_⟩
      rintro _ _ rfl
      exact ⟨halong.slot, hop, b', hhop, halong, hunopened⟩
  · rintro _ b' (⟨legs, rfl, hlength, halong⟩ |
      ⟨legs, cause, rfl, -, hslot, hop, b₁, hhop, halong, hunopened⟩)
    · refine ⟨halong.slot, .inl ⟨legs, rfl, halong.toLined, ?_⟩⟩
      rw [halong.named, hlength, List.take_length]
    · exact ⟨hslot, .inr ⟨_, rfl, legs, hop, b₁, cause, rfl, hhop, halong, hunopened⟩⟩

/-- A tunnel that has been built has a line of hops, which are those that were given. -/
structure Laid (S : Setting n) (b : Books n) (i : Fin n) (mode : TunnelMode) (hops : List Hop)
    (id : UInt32) (destination : Hop) (legs : List (Leg n)) : Prop extends Lined S b i mode legs where
  named : legs.map (·.hop.name) = hops.map Hop.name
  last : hops.getLast? = some destination
  ready : (b i).slot id = some (.ready ⟨id, mode, legs.map (·.hop), destination.hostkey⟩)

/-- A tunnel is built through the hops that were given, or it is known why not. -/
theorem does_build_along (hS : S.Own) (hinverts : (S.node i).registry.keypair.Inverts)
    (hdepth : 260 ≤ depth)
    (hplain : ∀ k hop, hops[k]? = some hop → S.Unscripted (dialledAt mode k hop.address))
    (htrusted : AllTrusted S V now i mode 0 hops) :
    Does S V now depth i b (Node.build mode hops) fun res b' =>
      (∃ id destination legs, res = .ok id ∧ id ≠ 0 ∧ (b i).slot id = none ∧
        Laid S b' i mode hops id destination legs) ∨
      ∃ e, res = .error e ∧ (hops = [] ∨ Unnumbered S V b i ∨
        ∃ b₀, Halted S V b₀ i mode hops e) := by
  unfold Node.build
  cases hlast : hops.getLast? with
  | none => exact Does.throw (.inr ⟨_, rfl, .inl (List.getLast?_eq_none_iff.1 hlast)⟩)
  | some destination =>
    refine does_reserveTunnel.bind ?_ ?_
    · rintro id _ (⟨_, ⟨⟩, hid, hfree, rfl⟩ | ⟨⟨_, ⟨⟩⟩, _⟩)
      apply Does.attempt (does_openHops_along hS hinverts hdepth hplain htrusted)
      rintro _ b' ⟨hslot, ⟨legs, rfl, hlined, hnamed⟩ | ⟨e, rfl, hhalted⟩⟩
      · refine Does.bind (does_complete _) ?_ ?_
        · rintro _ _ ⟨-, rfl⟩
          exact Does.pure (.inl ⟨id, destination, legs, rfl, hid, hfree, hlined.congr (by simp),
            hnamed, hlast, by simp⟩)
        · rintro _ _ ⟨⟨⟩, _⟩
      · have hbuilding : (b' i).slot id = some .building := by simp [hslot i]
        refine Does.bind (does_abandon hbuilding) ?_ ?_
        · rintro _ _ ⟨-, rfl⟩
          exact Does.throw (.inr ⟨e, rfl, .inr (.inr ⟨_, hhalted⟩)⟩)
        · rintro _ _ ⟨⟨⟩, _⟩
    · rintro e _ (⟨_, ⟨⟩, _⟩ | ⟨-, rfl, hunnumbered⟩)
      exact .inr ⟨e, rfl, .inr (.inl hunnumbered)⟩

/-- Nothing but the number of layers stops a build through settled hops in plentiful networks. -/
theorem Halted.full {e : TunnelError} (h : Halted S Plentiful b₀ i mode hops e)
    (hfit : ∀ j, (S.node j).registry.keypair.Fit) (hsettled : ∀ hop ∈ hops, Settled S hop) :
    mode = .relayed ∧ 256 < hops.length ∧ ∃ cause, e = .buildFailed 256 cause := by
  obtain ⟨legs, hop, b, cause, rfl, hhop, halong, hunopened⟩ := h
  have hwelcome : Welcome S mode hops := welcome_of_settled hsettled
  obtain ⟨hlt, -⟩ := List.getElem?_eq_some_iff.1 hhop
  have hfull : mode = .relayed ∧ legs.length = 256 := by
    by_contra hroom
    apply hwelcome.not_unopened hfit halong.toLined hhop (leading_of_named halong.named) _
      (not_spent_of_plentiful _ i) (fun _ _ j => not_spent_of_plentiful _ j) hunopened
    intro hmode
    have hshort := halong.short hmode
    have hne : legs.length ≠ 256 := fun h => hroom ⟨hmode, h⟩
    omega
  exact ⟨hfull.1, hfull.2 ▸ hlt, cause, by rw [hfull.2]⟩

/-- A tunnel through settled hops is built and chained in plentiful networks, unless it is relayed
through more hops than one cell has layers. -/
theorem does_build_settled (hS : S.Honest) (hfit : ∀ j, (S.node j).registry.keypair.Fit)
    (hdepth : 260 ≤ depth) (hne : hops ≠ []) (hsettled : ∀ hop ∈ hops, Settled S hop) :
    Does S Plentiful now depth i b (Node.build mode hops) fun res b' =>
      (∃ id t, res = .ok id ∧ id ≠ 0 ∧ (b i).slot id = none ∧ (b' i).slot id = some (.ready t) ∧
        t.id = id ∧ Chained S b' i mode hops t ∧ (mode = .relayed → hops.length ≤ 256)) ∨
      mode = .relayed ∧ 256 < hops.length ∧ ∃ e, res = .error (.buildFailed 256 e) := by
  have hinverts := fun j => (hfit j).inverts
  refine (does_build_along hS.own (hinverts i) hdepth (fun _ _ _ => hS.services _)
    ((welcome_of_settled hsettled).trusted hinverts i)).mono ?_
  rintro _ b' (⟨id, destination, legs, rfl, hid, hfree, hlaid⟩ |
    ⟨e, rfl, hempty | hunnumbered | ⟨b₀, hhalted⟩⟩)
  · refine .inl ⟨id, _, rfl, hid, hfree, hlaid.ready, rfl,
      hlaid.chained hlaid.named hsettled hlaid.last id, ?_⟩
    intro hmode
    have hlength : legs.length = hops.length := by
      simpa using congrArg List.length hlaid.named
    rw [← hlength]
    exact hlaid.short hmode
  · exact (hne hempty).elim
  · exact (not_unnumbered_of_plentiful _ i hunnumbered).elim
  · obtain ⟨hmode, hlong, cause, rfl⟩ := hhalted.full hfit hsettled
    exact .inr ⟨hmode, hlong, cause, rfl⟩

end Network

end OnionTunnel

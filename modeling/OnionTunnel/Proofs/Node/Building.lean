import OnionTunnel.Proofs.Node.Opening
import OnionTunnel.Proofs.Node.Releasing

/-!
# Building tunnels

While a tunnel is built, `Built` relates the books to those before: without the ends of the open hops
they are the same. So once the ends are struck out nothing is left, except where a session service
has answered in person.
-/

namespace OnionTunnel.Network

open Function SessionRegistry

variable {n : Nat} {S : Setting n} {V : Network n → Prop} {now : Instant} {depth : Nat}
  {i : Fin n} {b b' b₀ : Books n}
  {mode : TunnelMode} {legs : List (Leg n)} {l : Leg n}

/-- The route to the next hop when some are open. -/
def routeTo (mode : TunnelMode) (legs : List (Leg n)) : List (Leg n) :=
  match mode with
  | .direct => []
  | .relayed => legs

/-- Where the hop at a place of a tunnel is dialled. -/
def dialledAt : TunnelMode → Nat → Address → Address
  | .relayed, _ + 1, a => a.canonical
  | _, _, a => a

/-- Nothing has changed but for sessions that were not there. -/
structure Leaks (b b' : Books n) : Prop where
  session : ∀ j x, (b j).session x ≠ none → (b' j).session x = (b j).session x
  link : ∀ j x, (b' j).link x = (b j).link x
  slot : ∀ j, (b' j).slot = (b j).slot
  handed : ∀ j, (b' j).handed = (b j).handed

theorem Leaks.refl (b : Books n) : Leaks b b :=
  ⟨fun _ _ _ => rfl, fun _ _ => rfl, fun _ => rfl, fun _ => rfl⟩

/-- The hops of a tunnel are lined up on the books, each one dialled as its place says. -/
structure Lined (S : Setting n) (b : Books n) (i : Fin n) (mode : TunnelMode)
    (legs : List (Leg n)) : Prop where
  routes : ∀ r ∈ routes mode legs, Route S b i r
  nodup : (legEnds i legs).Nodup
  dialled_eq : ∀ k l, legs[k]? = some l → l.dialled = dialledAt mode k l.hop.address
  short : mode = .relayed → legs.length ≤ 256

/-- The hops of a tunnel stand on the books, and the owner's sessions with them have no links. -/
structure Stands (S : Setting n) (b : Books n) (i : Fin n) (mode : TunnelMode)
    (legs : List (Leg n)) : Prop extends Lined S b i mode legs where
  unlinked : ∀ l ∈ legs, (b i).link l.hop.session = none

/-- The open hops of a tunnel stand on the books, which without them are as they were before. -/
structure Built (S : Setting n) (b₀ : Books n) (i : Fin n) (mode : TunnelMode)
    (legs : List (Leg n)) (b : Books n) : Prop extends Stands S b i mode legs where
  linksHeld : LinksHeld b
  leaks : Leaks b₀ (b.without (legEnds i legs))
  tidy : (∀ l ∈ legs, l.far? ≠ none) → b.without (legEnds i legs) = b₀
  loose : ∀ l ∈ legs, l.far? = none → ∃ j, (b j).session l.hop.link ≠ none ∧
    (j, l.hop.link) ∉ legEnds i legs

theorem legEnds_append (legs legs' : List (Leg n)) :
    legEnds i (legs ++ legs') = legEnds i legs ++ legEnds i legs' :=
  List.flatMap_append

theorem Lined.held (h : Lined S b i mode legs) (hl : l ∈ legs) : Held S b i l := by
  obtain ⟨r, hr, hlr⟩ := mem_routes_of_mem mode hl
  exact (h.routes r hr).held l hlr

theorem Lined.route (h : Lined S b i mode legs) : Route S b i (routeTo mode legs) := by
  cases mode with
  | direct => exact ⟨trivial, by simp [routeTo], by simp [routeTo]⟩
  | relayed => exact h.routes legs (by simp [Network.routes])

/-- The ends of the hops are sessions on the books. -/
theorem Lined.session_ne_none (h : Lined S b i mode legs) {j : Fin n} {x : UInt32}
    (hend : (j, x) ∈ legEnds i legs) : (b j).session x ≠ none := by
  obtain ⟨l, hl, hend⟩ := List.mem_flatMap.1 hend
  exact (h.held hl).session_ne_none hend

theorem Lined.nil (S : Setting n) (b : Books n) (i : Fin n) (mode : TunnelMode) :
    Lined S b i mode [] where
  routes r hr := by
    obtain rfl : r = [] := by
      cases mode with
      | direct => simp [Network.routes] at hr
      | relayed => simpa [Network.routes] using hr
    exact ⟨trivial, by simp, by simp⟩
  nodup := List.nodup_nil
  dialled_eq := by simp
  short := by simp

/-! ### One more hop -/

section Snoc
variable {hop : Hop}

theorem farEnds_routeTo {e : End n} (h : e ∈ farEnds (routeTo mode legs)) : e ∈ legEnds i legs := by
  cases mode with
  | direct => simp [routeTo, farEnds] at h
  | relayed => exact (farEnds_sublist i _).subset h

/-- An entry of an open hop is not one of the next hop. -/
theorem Opens.not_mem_ends (hopens : Opens S b i (routeTo mode legs) hop l b') {j : Fin n}
    {x : UInt32} (h : (b j).session x ≠ none) : (j, x) ∉ l.ends i :=
  fun hend => h (hopens.fresh j x hend)

theorem Opens.dialledAt_eq (hopens : Opens S b i (routeTo mode legs) hop l b') :
    l.dialled = dialledAt mode legs.length l.hop.address := by
  rw [hopens.dialled_eq, hopens.address_eq]
  cases mode with
  | direct => rfl
  | relayed => cases legs <;> rfl

/-- A route of open hops stands when the next hop is opened elsewhere. -/
theorem Opens.held (hopens : Opens S b i (routeTo mode legs) hop l b')
    (hlined : Lined S b i mode legs) {l' : Leg n} (hl' : l' ∈ legs) : Held S b' i l' := by
  have hheld := hlined.held hl'
  apply hheld.congr
  intro j x hend
  exact hopens.session j x (hheld.session_ne_none hend)

theorem Opens.routes (hopens : Opens S b i (routeTo mode legs) hop l b')
    (hlined : Lined S b i mode legs) :
    ∀ r ∈ routes mode (legs ++ [l]), Route S b' i r := by
  have hfirst : routeTo mode legs = [] → l.dialled = l.hop.address := by
    intro hnil
    rw [hopens.dialled_eq, hnil, hopens.address_eq]
    rfl
  intro r hr
  cases mode with
  | direct =>
    have hr' : r ∈ Network.routes .direct legs ∨ r = [l] := by simpa [Network.routes] using hr
    obtain hr | rfl := hr'
    · have hroute := hlined.routes r hr
      refine ⟨hroute.linked.congr ?_, ?_, hroute.first⟩
      · intro j x hend
        refine hopens.link j x (hopens.not_mem_ends (hlined.session_ne_none ?_)) ?_
        · obtain ⟨l', hl', hend⟩ := List.mem_filterMap.1 hend
          exact (farEnds_sublist i legs).subset
            (List.mem_filterMap.2 ⟨l', mem_of_mem_routes hr hl', hend⟩)
        · simp [routeTo, farEnds]
      · intro l' hl'
        exact hopens.held hlined (mem_of_mem_routes hr hl')
    · refine ⟨hopens.linked, ?_, ?_⟩
      · simpa using hopens.stands
      · simpa using hfirst rfl
  | relayed =>
    obtain rfl := List.mem_singleton.1 hr
    refine ⟨hopens.linked, ?_, ?_⟩
    · intro l' hl'
      obtain hl' | hl' := List.mem_append.1 hl'
      · exact hopens.held hlined hl'
      · obtain rfl := List.mem_singleton.1 hl'
        exact hopens.stands
    · cases legs with
      | nil => simpa using hfirst rfl
      | cons l' rest => exact hlined.route.first

theorem Opens.nodup_snoc (hopens : Opens S b i (routeTo mode legs) hop l b')
    (hlined : Lined S b i mode legs) : (legEnds i (legs ++ [l])).Nodup := by
  rw [legEnds_append]
  refine List.nodup_append.2 ⟨hlined.nodup, by simpa [legEnds] using hopens.nodup, ?_⟩
  rintro ⟨j, x⟩ hend _ hend' rfl
  exact hopens.not_mem_ends (hlined.session_ne_none hend) (by simpa [legEnds] using hend')

theorem mem_legEnds_snoc {e : End n} :
    e ∈ legEnds i (legs ++ [l]) ↔ e ∈ legEnds i legs ∨ e ∈ l.ends i := by
  simp [legEnds]

/-- A further hop is lined up after those before. -/
theorem Lined.snoc (hlined : Lined S b i mode legs)
    (hopens : Opens S b i (routeTo mode legs) hop l b') : Lined S b' i mode (legs ++ [l]) where
  routes := hopens.routes hlined
  nodup := hopens.nodup_snoc hlined
  dialled_eq k l' hl' := by
    rw [List.getElem?_append] at hl'
    split at hl'
    · exact hlined.dialled_eq k l' hl'
    · next hlong =>
      obtain ⟨hk, rfl⟩ : k - legs.length = 0 ∧ l = l' := by
        simpa [List.getElem?_singleton] using hl'
      obtain rfl : k = legs.length := by omega
      exact hopens.dialledAt_eq
  short := by
    rintro rfl
    have hshort := hopens.short
    simp only [routeTo] at hshort
    rw [List.length_append, List.length_singleton]
    omega

/-- The owner's sessions with the hops have no links when one more hop is opened. -/
theorem Opens.unlinked (hopens : Opens S b i (routeTo mode legs) hop l b')
    (hbuilt : Built S b₀ i mode legs b) :
    ∀ l' ∈ legs ++ [l], (b' i).link l'.hop.session = none := by
  intro l' hl'
  obtain hl' | hl' := List.mem_append.1 hl'
  · have hheld := hbuilt.held hl'
    rw [hopens.link i _ (hopens.not_mem_ends (hheld.session_ne_none (by simp [Leg.ends])))]
    · exact hbuilt.unlinked l' hl'
    · intro hend
      obtain ⟨next?, hlink⟩ := hbuilt.route.linked.link_isSome hend
      rw [hbuilt.unlinked l' hl'] at hlink
      cases hlink
  · obtain rfl := List.mem_singleton.1 hl'
    rw [hopens.near]
    by_contra hsome
    exact hbuilt.linksHeld i _ hsome (hopens.fresh i _ (by simp [Leg.ends]))

theorem Opens.linksHeld (hopens : Opens S b i (routeTo mode legs) hop l b')
    (hbuilt : Built S b₀ i mode legs b) : LinksHeld b' := by
  intro j x hlink
  by_cases hend : (j, x) ∈ l.ends i
  · exact hopens.stands.session_ne_none hend
  · have hsession : (b j).session x ≠ none := by
      by_cases hroute : (j, x) ∈ farEnds (routeTo mode legs)
      · exact hbuilt.session_ne_none (farEnds_routeTo hroute)
      · exact hbuilt.linksHeld j x (hopens.link j x hend hroute ▸ hlink)
    rw [hopens.session j x hsession]
    exact hsession

/-- Without its ends, a further hop leaves the links as they were. -/
theorem Opens.link_without (hopens : Opens S b i (routeTo mode legs) hop l b')
    (hbuilt : Built S b₀ i mode legs b) (j : Fin n) (x : UInt32) :
    (b'.without (legEnds i (legs ++ [l])) j).link x = (b₀ j).link x := by
  rw [← hbuilt.leaks.link]
  simp only [Books.without_apply, mem_legEnds_snoc]
  by_cases hold : (j, x) ∈ legEnds i legs
  · simp [hold]
  · by_cases hnew : (j, x) ∈ l.ends i
    · have hnone : (b j).link x = none := by
        by_contra hsome
        exact hbuilt.linksHeld j x hsome (hopens.fresh j x hnew)
      simp [hold, hnew, hnone]
    · have hroute : (j, x) ∉ farEnds (routeTo mode legs) := fun h => hold (farEnds_routeTo h)
      simp [hold, hnew, hopens.link j x hnew hroute]

/-- An open hop more stands on the books like those before. -/
theorem Built.snoc (hbuilt : Built S b₀ i mode legs b)
    (hopens : Opens S b i (routeTo mode legs) hop l b') :
    Built S b₀ i mode (legs ++ [l]) b' where
  toLined := hbuilt.toLined.snoc hopens
  unlinked := hopens.unlinked hbuilt
  linksHeld := hopens.linksHeld hbuilt
  leaks := by
    refine ⟨?_, hopens.link_without hbuilt, ?_, ?_⟩
    · intro j x hsome
      have hkept := hbuilt.leaks.session j x hsome
      simp only [Books.without_apply, mem_legEnds_snoc] at hkept ⊢
      split at hkept
      · exact (hsome hkept.symm).elim
      · next hold =>
        have hsome' : (b j).session x ≠ none := hkept ▸ hsome
        rw [if_neg, hopens.session j x hsome', hkept]
        exact not_or.2 ⟨hold, hopens.not_mem_ends hsome'⟩
    · intro j
      exact (hopens.slot j).trans (hbuilt.leaks.slot j)
    · intro j
      exact (hopens.handed j).trans (hbuilt.leaks.handed j)
  tidy hproper := by
    have htidy := hbuilt.tidy fun l' hl' => hproper l' (by simp [hl'])
    refine Books.ext ?_ (hopens.link_without hbuilt) ?_ ?_
    · intro j x
      rw [← htidy]
      simp only [Books.without_apply, mem_legEnds_snoc]
      by_cases hold : (j, x) ∈ legEnds i legs
      · simp [hold]
      · by_cases hnew : (j, x) ∈ l.ends i
        · simp [hold, hnew, hopens.fresh j x hnew]
        · simp [hold, hnew, hopens.tidy (hproper l (by simp)) j x hnew]
    · intro j x
      exact congrFun ((hopens.slot j).trans (hbuilt.leaks.slot j)) x
    · intro j
      exact (hopens.handed j).trans (hbuilt.leaks.handed j)
  loose l' hl' hfar := by
    obtain hl' | hl' := List.mem_append.1 hl'
    · obtain ⟨j, hsome, hnot⟩ := hbuilt.loose l' hl' hfar
      refine ⟨j, ?_, fun hend => ?_⟩
      · rwa [hopens.session j _ hsome]
      · exact (mem_legEnds_snoc.1 hend).elim hnot (hopens.not_mem_ends hsome)
    · obtain rfl := List.mem_singleton.1 hl'
      obtain ⟨j, hnone, hsome, hnot⟩ := hopens.loose hfar
      refine ⟨j, hsome, fun hend => ?_⟩
      exact (mem_legEnds_snoc.1 hend).elim (fun hend => hbuilt.session_ne_none hend hnone) hnot

end Snoc

/-! ### Hop by hop -/

theorem routeBy_eq (mode : TunnelMode) (legs : List (Leg n)) :
    Node.routeBy mode (legs.map (·.hop)) = (routeTo mode legs).map (·.hop) := by
  cases mode <;> rfl

theorem dialled_routeTo (mode : TunnelMode) (legs : List (Leg n)) (a : Address) :
    dialled (routeTo mode legs) a = dialledAt mode legs.length a := by
  cases mode with
  | direct => rfl
  | relayed => cases legs <;> rfl

theorem Lined.routeTo_length (h : Lined S b i mode legs) : (routeTo mode legs).length ≤ 256 := by
  cases mode with
  | direct => simp [routeTo]
  | relayed => exact h.short rfl

theorem Lined.length_lt (h : Lined S b i mode legs) :
    ∀ r ∈ Network.routes mode legs, r.length < 258 := by
  intro r hr
  cases mode with
  | direct =>
    obtain ⟨l, -, rfl⟩ := List.mem_map.1 hr
    exact show 1 < 258 by decide
  | relayed =>
    obtain rfl := List.mem_singleton.1 hr
    have := h.short rfl
    omega

/-- A hop without a far end was dialled where a session service answers. -/
theorem Lined.sessions_of_far (h : Lined S b i mode legs) (hl : l ∈ legs)
    (hfar : l.far? = none) : ∃ j, S.serviceAt? l.dialled = some ⟨j, .sessions⟩ := by
  obtain ⟨r, hr, hlr⟩ := mem_routes_of_mem mode hl
  exact (h.routes r hr).linked.sessions_of_far hlr hfar

/-- Each leg is dialled where the hop at its place is, of hops that begin with those of the legs. -/
theorem Lined.dialled_hop (h : Lined S b i mode legs) {hops : List Hop}
    (haddress : legs.map (·.hop.address) <+: hops.map (·.address)) {l : Leg n} (hl : l ∈ legs) :
    ∃ k hop, k < legs.length ∧ hops[k]? = some hop ∧
      l.dialled = dialledAt mode k hop.address := by
  obtain ⟨k, hlt, rfl⟩ := List.getElem_of_mem hl
  have hat := List.prefix_iff_getElem?.1 haddress k (by simpa using hlt)
  rw [List.getElem?_map, List.getElem_map] at hat
  obtain ⟨hop, hhop, heq⟩ := Option.map_eq_some_iff.1 hat
  exact ⟨k, hop, hlt, hhop, by rw [h.dialled_eq k _ (List.getElem?_eq_getElem hlt), heq]⟩

/-- No hop of a list, after some others, is dialled where a session service answers. -/
def Clear (S : Setting n) (mode : TunnelMode) (before : Nat) (hops : List Hop) : Prop :=
  ∀ k hop, hops[k]? = some hop → ∀ j,
    S.serviceAt? (dialledAt mode (before + k) hop.address) ≠ some ⟨j, .sessions⟩

/-- What is sealed for the hops of a list opens faithfully where they are dialled after others. -/
def AllTrusted (S : Setting n) (V : Network n → Prop) (now : Instant) (i : Fin n)
    (mode : TunnelMode) (before : Nat) (hops : List Hop) : Prop :=
  ∀ k hop, hops[k]? = some hop →
    Trusted S V now i hop.hostkey (dialledAt mode (before + k) hop.address)

/-- Hops are opened one after the other. A statement that holds of those that are open, and of one
more when it is opened, holds of all in the end; or the hop that could not be opened is named, and
the others have been released. -/
theorem does_openHops_of (hops : List Hop) (legs : List (Leg n))
    {I F : List (Leg n) → Books n → Prop}
    (hopen : ∀ legs hop b, hops[legs.length]? = some hop → I legs b →
      Does S V now depth i b (Node.openHop hop (Node.routeBy mode (legs.map (·.hop)))) fun res b' =>
        (∃ l, res = .ok l.hop ∧ I (legs ++ [l]) b') ∨
        (∃ e, res = .error e) ∧
          Leads S V now depth i b' (Node.release mode (legs.map (·.hop))) fun _ b'' => F legs b'')
    {rest : List Hop} (hrest : hops.drop legs.length = rest) (hI : I legs b)
    (hshort : legs.length ≤ hops.length) :
    Does S V now depth i b (Node.openHops mode (legs.map (·.hop)) rest) fun res b' =>
      (∃ legs', res = .ok (legs'.map (·.hop)) ∧ legs'.length = hops.length ∧ I legs' b') ∨
      ∃ legs' e, res = .error (.buildFailed legs'.length e) ∧ legs'.length < hops.length ∧
        F legs' b' := by
  induction rest generalizing legs b with
  | nil =>
      have hlen : legs.length = hops.length :=
        Nat.le_antisymm hshort (List.drop_eq_nil_iff.1 hrest)
      exact Does.pure (.inl ⟨legs, rfl, hlen, hI⟩)
  | cons hop rest ih =>
      obtain ⟨hlt, hhop, hrest'⟩ : legs.length < hops.length ∧ hops[legs.length]? = some hop ∧
          hops.drop (legs.length + 1) = rest := by
        have hlt : legs.length < hops.length := by
          by_contra hle
          rw [List.drop_eq_nil_iff.2 (Nat.not_lt.1 hle)] at hrest
          cases hrest
        rw [List.drop_eq_getElem_cons hlt] at hrest
        obtain ⟨hhop, hrest⟩ := List.cons.inj hrest
        exact ⟨hlt, by rw [List.getElem?_eq_getElem hlt, hhop], hrest⟩
      apply Does.attempt (hopen legs hop b hhop hI)
      rintro _ b' (⟨l, rfl, hI'⟩ | ⟨⟨e, rfl⟩, hreleased⟩)
      · have hnext := ih (legs ++ [l]) (by simpa using hrest') hI'
          (by simpa using Nat.succ_le_of_lt hlt)
        rw [List.map_append, List.map_singleton] at hnext
        exact hnext
      · apply Does.after hreleased
        intro _ b'' hF
        refine Does.throw (.inr ⟨legs, e, ?_, hlt, hF⟩)
        rw [List.length_map]

/-- Some hop of a list was not opened after those before it. -/
def Stopped (S : Setting n) (V : Network n → Prop) (b₀ : Books n) (i : Fin n) (mode : TunnelMode)
    (hops : List Hop) : Prop :=
  ∃ legs hop b, hops[legs.length]? = some hop ∧ Built S b₀ i mode legs b ∧
    legs.map (·.hop.address) = (hops.take legs.length).map (·.address) ∧
    Unopened S V b i (routeTo mode legs) hop

/-- What is true of the open hops, one by one, and of the next one is true of all when it is open. -/
theorem map_take_snoc {α : Type} {f : Leg n → α} {g : Hop → α} {hop : Hop} {hops : List Hop}
    (hhop : hops[legs.length]? = some hop) (hnext : f l = g hop)
    (h : legs.map f = (hops.take legs.length).map g) :
    (legs ++ [l]).map f = (hops.take (legs ++ [l]).length).map g := by
  obtain ⟨hlt, rfl⟩ := List.getElem?_eq_some_iff.1 hhop
  rw [List.length_append, List.length_singleton, List.take_succ_eq_append_getElem hlt,
    List.map_append, List.map_append, h, List.map_singleton, List.map_singleton, hnext]

/-- A hop is opened after those that are open, which are lined up. -/
theorem Lined.does_openHop (h : Lined S b i mode legs) (hS : S.Own)
    (hinverts : (S.node i).registry.keypair.Inverts) (hdepth : 260 ≤ depth) {hop : Hop}
    {hops : List Hop} (hplain : S.Unscripted (dialledAt mode legs.length hop.address))
    (htrusted : AllTrusted S V now i mode 0 hops)
    (hhop : hops[legs.length]? = some hop) :
    Does S V now depth i b (Node.openHop hop (Node.routeBy mode (legs.map (·.hop)))) fun res b' =>
      (∃ l, res = .ok l.hop ∧ Opens S b i (routeTo mode legs) hop l b') ∨
      (∃ e, res = .error e) ∧ b' = b ∧ Unopened S V b i (routeTo mode legs) hop := by
  have hshort := h.routeTo_length
  obtain ⟨d, rfl⟩ : ∃ d, depth = d + 2 + (routeTo mode legs).length :=
    ⟨depth - 2 - (routeTo mode legs).length, by omega⟩
  rw [routeBy_eq]
  apply Network.does_openHop hS hinverts h.route
  · rwa [dialled_routeTo]
  · rw [dialled_routeTo, ← Nat.zero_add legs.length]
    exact htrusted legs.length hop hhop

/-- The strands of hops that are lined up are short. -/
theorem Lined.strands (h : Lined S b i mode legs) :
    ∃ strands, Strands S b (Node.notified mode (legs.map (·.hop))) strands ∧
      strands.flatten = farEnds legs ∧ ∀ ends ∈ strands, ends.length < 258 := by
  obtain ⟨strands, hstrands, hflat, hroutes⟩ := strands_of_routes h.routes
  refine ⟨strands, hstrands, hflat, ?_⟩
  intro ends hends
  obtain ⟨r, hr, rfl⟩ := hroutes ends hends
  exact Nat.lt_of_le_of_lt (List.length_filterMap_le _ r) (h.length_lt r hr)

/-- Releasing hops that are lined up. -/
theorem Lined.leads_release (h : Lined S b i mode legs) (hS : S.Own) (hdepth : 260 ≤ depth) :
    Leads S V now depth i b (Node.release mode (legs.map (·.hop)))
      fun _ b' => b' = (b.without (farEnds legs)).closed (nearEnds i legs) := by
  obtain ⟨d, rfl⟩ : ∃ d, depth = d + 1 := ⟨depth - 1, by omega⟩
  obtain ⟨strands, hstrands, hflat, hshort⟩ := h.strands
  rw [← hflat]
  refine Network.leads_release hS hstrands ?_ ?_
  · rw [hflat]
    exact h.nodup.sublist (farEnds_sublist i legs)
  · intro ends hends
    have := hshort ends hends
    omega

/-- Releasing hops that stand strikes out their ends. -/
theorem Stands.leads_release (h : Stands S b i mode legs) (hS : S.Own) (hdepth : 260 ≤ depth) :
    Leads S V now depth i b (Node.release mode (legs.map (·.hop)))
      fun _ b' => b' = b.without (legEnds i legs) := by
  rw [← without_legEnds, ← closed_without _ h.unlinked]
  exact h.toLined.leads_release hS hdepth

/-- An owner holds its sessions with the hops of a tunnel, and strands hang where it tells hops when
the tunnel goes. They may be longer than it knows. -/
structure Hung (S : Setting n) (b : Books n) (i : Fin n) (mode : TunnelMode) (legs : List (Leg n))
    (strands : List (List (End n))) : Prop where
  near : ∀ l ∈ legs, NearHeld b i l
  unlinked : ∀ l ∈ legs, (b i).link l.hop.session = none
  hangs : Strands S b (Node.notified mode (legs.map (·.hop))) strands
  nodup : strands.flatten.Nodup

/-- Where hops stand, the strands are the hops. -/
theorem Stands.hung (h : Stands S b i mode legs) :
    ∃ strands, Hung S b i mode legs strands ∧ strands.flatten = farEnds legs := by
  obtain ⟨strands, hstrands, hflat, -⟩ := h.toLined.strands
  refine ⟨strands, ⟨fun l hl => (h.held hl).near, h.unlinked, hstrands, ?_⟩, hflat⟩
  rw [hflat]
  exact h.nodup.sublist (farEnds_sublist i legs)

/-- Releasing hops strikes out the strands that hang there, and the owner's ends. -/
theorem Hung.leads_release {strands : List (List (End n))} (h : Hung S b i mode legs strands)
    (hS : S.Own) (hdepth : ∀ ends ∈ strands, ends.length < depth + 1) :
    Leads S V now (depth + 1) i b (Node.release mode (legs.map (·.hop)))
      fun _ b' => b' = b.without (strands.flatten ++ nearEnds i legs) := by
  rw [← closed_without _ h.unlinked]
  exact Network.leads_release hS h.hangs h.nodup hdepth

/-- Without session services where hops are dialled, every hop has an end at a node. -/
theorem Lined.far_of_clear {hops : List Hop} (h : Lined S b i mode legs)
    (hclear : Clear S mode 0 hops) (haddress : legs.map (·.hop.address) <+: hops.map (·.address)) :
    ∀ l ∈ legs, l.far? ≠ none := by
  intro l hl hfar
  obtain ⟨j, hdest⟩ := h.sessions_of_far hl hfar
  obtain ⟨k, hop, -, hhop, hdialled⟩ := h.dialled_hop haddress hl
  rw [hdialled] at hdest
  exact hclear k hop hhop j (by rwa [Nat.zero_add])

/-- All hops are opened, or the open ones are released again. -/
theorem does_openHops (hS : S.Honest) (hinverts : (S.node i).registry.keypair.Inverts)
    (hdepth : 260 ≤ depth) {hops : List Hop} (hbuilt : Built S b₀ i mode [] b)
    (htrusted : AllTrusted S V now i mode 0 hops) :
    Does S V now depth i b (Node.openHops mode [] hops) fun res b' =>
      (∃ legs, res = .ok (legs.map (·.hop)) ∧ Built S b₀ i mode legs b' ∧
        legs.map (·.hop.address) = hops.map (·.address)) ∨
      (∃ e, res = .error e) ∧ Leaks b₀ b' ∧ (Clear S mode 0 hops → b' = b₀) ∧
        Stopped S V b₀ i mode hops := by
  have hleading : ∀ {legs : List (Leg n)},
      legs.map (·.hop.address) = (hops.take legs.length).map (·.address) →
        legs.map (·.hop.address) <+: hops.map (·.address) := by
    intro legs haddress
    rw [haddress]
    exact (List.take_prefix _ hops).map _
  refine (does_openHops_of hops []
    (I := fun legs b => Built S b₀ i mode legs b ∧
      legs.map (·.hop.address) = (hops.take legs.length).map (·.address))
    (F := fun _ b' => Leaks b₀ b' ∧ (Clear S mode 0 hops → b' = b₀) ∧ Stopped S V b₀ i mode hops)
    ?_ rfl ⟨hbuilt, by simp⟩ (Nat.zero_le _)).mono ?_
  · rintro legs hop b hhop ⟨hbuilt, haddress⟩
    refine (hbuilt.does_openHop hS.own hinverts hdepth (hS.services _) htrusted hhop).mono ?_
    rintro _ b' (⟨l, rfl, hopens⟩ | ⟨herror, rfl, hunopened⟩)
    · exact .inl ⟨l, rfl, hbuilt.snoc hopens, map_take_snoc hhop hopens.address_eq haddress⟩
    · refine .inr ⟨herror, (hbuilt.leads_release hS.own hdepth).mono ?_⟩
      rintro _ _ rfl
      refine ⟨hbuilt.leaks, fun hclear => ?_, legs, hop, b', hhop, hbuilt, haddress, hunopened⟩
      exact hbuilt.tidy (hbuilt.far_of_clear hclear (hleading haddress))
  · rintro _ b' (⟨legs, rfl, hlen, hbuilt, haddress⟩ | ⟨legs, e, rfl, -, hfailed⟩)
    · rw [hlen, List.take_length] at haddress
      exact .inl ⟨legs, rfl, hbuilt, haddress⟩
    · exact .inr ⟨⟨_, rfl⟩, hfailed⟩

end OnionTunnel.Network

import OnionTunnel.Proofs.Node.Relaying

/-!
# Releasing hops

The hops of a tunnel form one route or one route each. The first hop of every route is told, and the
owner closes its own sessions; so every end of the tunnel is struck out.
-/

namespace OnionTunnel.Network

open Function SessionRegistry

variable {n : Nat} {S : Setting n} {V : Network n → Prop} {now : Instant} {depth : Nat}
  {i : Fin n} {b : Books n}
  {mode : TunnelMode} {legs : List (Leg n)} {l : Leg n}

/-- The lines of hops that the owner reaches one by one. -/
def routes (mode : TunnelMode) (legs : List (Leg n)) : List (List (Leg n)) :=
  match mode with
  | .direct => legs.map fun l => [l]
  | .relayed => [legs]

theorem mem_routes_of_mem (mode : TunnelMode) (h : l ∈ legs) : ∃ r ∈ routes mode legs, l ∈ r := by
  cases mode with
  | direct => exact ⟨[l], List.mem_map_of_mem h, by simp⟩
  | relayed => exact ⟨legs, by simp [routes], h⟩

theorem mem_of_mem_routes {r : List (Leg n)} (hr : r ∈ routes mode legs) (h : l ∈ r) :
    l ∈ legs := by
  cases mode with
  | direct =>
    obtain ⟨l', hl', rfl⟩ := List.mem_map.1 hr
    obtain rfl := List.mem_singleton.1 h
    exact hl'
  | relayed =>
    obtain rfl := List.mem_singleton.1 hr
    exact h

theorem farEnds_sublist (i : Fin n) (legs : List (Leg n)) :
    (farEnds legs).Sublist (legEnds i legs) := by
  induction legs with
  | nil => exact .slnil
  | cons l rest ih =>
      cases hend : l.farEnd? with
      | none => simpa [farEnds, legEnds, Leg.ends, hend] using ih.cons (i, l.hop.session)
      | some e =>
        simpa [farEnds, legEnds, Leg.ends, hend] using (ih.cons_cons e).cons (i, l.hop.session)

theorem farEnds_append (legs legs' : List (Leg n)) :
    farEnds (legs ++ legs') = farEnds legs ++ farEnds legs' :=
  List.filterMap_append

theorem Route.strand {rest : List (Leg n)} (h : Route S b i (l :: rest)) :
    Strand S b (some l.hop.target) (farEnds (l :: rest)) := by
  have hstrand := h.linked.strand fun l' hl' => (h.held l' hl').far
  have htarget : l.target = l.hop.target := by rw [Leg.target, h.first l rfl, OpenHop.target]
  rwa [List.head?_cons, Option.map_some, htarget] at hstrand

/-- Every route of a tunnel is a strand that hangs at a hop that is told when the tunnel goes. -/
theorem strands_of_routes (hroutes : ∀ r ∈ routes mode legs, Route S b i r) :
    ∃ strands, Strands S b (Node.notified mode (legs.map (·.hop))) strands ∧
      strands.flatten = farEnds legs ∧
      ∀ ends ∈ strands, ∃ r ∈ routes mode legs, ends = farEnds r := by
  cases mode with
  | direct =>
    refine ⟨legs.map fun l => farEnds [l], ?_, ?_, ?_⟩
    · refine List.forall₂_map_left_iff.2 (List.forall₂_map_right_iff.2 (List.forall₂_same.2 ?_))
      exact fun l hl => (hroutes [l] (List.mem_map_of_mem hl)).strand
    · clear hroutes
      induction legs with
      | nil => rfl
      | cons l rest ih => rw [List.map_cons, List.flatten_cons, ih, ← farEnds_append]; rfl
    · intro ends hends
      obtain ⟨l, hl, rfl⟩ := List.mem_map.1 hends
      exact ⟨[l], List.mem_map_of_mem hl, rfl⟩
  | relayed =>
    cases legs with
    | nil => exact ⟨[], .nil, rfl, nofun⟩
    | cons l rest =>
      have hroute := hroutes (l :: rest) (List.mem_singleton_self _)
      exact ⟨[farEnds (l :: rest)], .cons hroute.strand .nil, List.append_nil _, by simp [routes]⟩

/-- Telling hops strikes out the strands that hang there. -/
theorem leads_dropStrands (hS : S.Own) {hops : List OpenHop} {strands : List (List (End n))}
    (h : Strands S b hops strands) (hnodup : strands.flatten.Nodup)
    (hdepth : ∀ ends ∈ strands, ends.length < depth) :
    Leads S V now depth i b (hops.forM fun h => Node.dropLink h.address h.link)
      fun _ b' => b' = b.without strands.flatten := by
  induction hops generalizing b strands with
  | nil =>
      cases h
      exact Leads.pure (Books.without_nil b).symm
  | cons hop hops ih =>
      cases h with
      | @cons _ ends _ rest hfirst hrest =>
        rw [List.flatten_cons] at hnodup ⊢
        obtain ⟨hends, hnodup, hapart⟩ := List.nodup_append.1 hnodup
        obtain ⟨d, rfl⟩ : ∃ d, depth = d + 1 + ends.length :=
          ⟨depth - 1 - ends.length, by have := hdepth ends List.mem_cons_self; omega⟩
        apply Leads.bind (leads_dropStrand hS hfirst hends)
        rintro _ _ rfl
        have hkept : Strands S (b.without ends) hops rest := by
          refine Strands.congr hrest fun j x hend => ?_
          have hnot : (j, x) ∉ ends := fun hend' => hapart _ hend' _ hend rfl
          simp only [Books.without_apply, if_neg hnot, and_self]
        refine (ih hkept hnodup fun ends' hends' =>
          hdepth ends' (List.mem_cons_of_mem _ hends')).mono ?_
        rintro _ _ rfl
        exact Books.without_without _ _ _

/-- What legs take up at their owner. -/
def nearEnds (i : Fin n) (legs : List (Leg n)) : List (End n) :=
  legs.map fun l => (i, l.hop.session)

theorem nearEnds_sublist (i : Fin n) (legs : List (Leg n)) :
    (nearEnds i legs).Sublist (legEnds i legs) := by
  induction legs with
  | nil => exact .slnil
  | cons l rest ih =>
      show ((i, l.hop.session) :: nearEnds i rest).Sublist
        ((i, l.hop.session) :: (l.farEnd?.toList ++ legEnds i rest))
      exact (ih.trans (List.sublist_append_right _ _)).cons_cons _

/-- Closing the owner's sessions with hops takes them off the books. -/
theorem leads_closeSessions (hS : S.Own) :
    Leads S V now (depth + 1) i b
      ((legs.map (·.hop)).forM fun h => do
        Node.closeSession h.session
        modify (Node.updateDirectory (·.forgetPeer h.identity)))
      fun _ b' => b' = b.closed (nearEnds i legs) := by
  induction legs generalizing b with
  | nil => exact Leads.pure (Books.ext (by simp [nearEnds]) (by simp) (by simp) (by simp))
  | cons l rest ih =>
      refine Leads.bind (P := fun _ b' => b' = b.setSession i l.hop.session none) ?_ ?_
      · apply Leads.bind (leads_closeSession hS l.hop.session)
        rintro _ _ rfl
        refine Leads.modifyGet fun node hset hrow => ?_
        obtain ⟨hset', hrow'⟩ := Node.updateDirectory_setting (·.forgetPeer l.hop.identity) node
        exact ⟨hset'.trans hset, by rw [hrow', hrow, update_eq_self]⟩
      · rintro _ _ rfl
        refine ih.mono ?_
        rintro _ _ rfl
        refine Books.ext ?_ (by simp) (by simp) (by simp)
        intro j x
        have hends : nearEnds i (l :: rest) = (i, l.hop.session) :: nearEnds i rest := rfl
        simp only [Books.closed_apply, Books.setSession_apply, hends, List.mem_cons]
        by_cases hmem : (j, x) ∈ nearEnds i rest <;> simp only [hmem, or_true, or_false, if_true,
          if_false]

/-- Releasing a tunnel strikes out the strands at its hops and closes the owner's sessions. -/
theorem leads_release (hS : S.Own) {strands : List (List (End n))}
    (hstrands : Strands S b (Node.notified mode (legs.map (·.hop))) strands)
    (hnodup : strands.flatten.Nodup) (hdepth : ∀ ends ∈ strands, ends.length < depth + 1) :
    Leads S V now (depth + 1) i b (Node.release mode (legs.map (·.hop)))
      fun _ b' => b' = (b.without strands.flatten).closed (nearEnds i legs) := by
  apply Leads.bind (leads_dropStrands hS hstrands hnodup hdepth)
  rintro _ _ rfl
  exact leads_closeSessions hS

theorem mem_legEnds {e : End n} :
    e ∈ legEnds i legs ↔ e ∈ farEnds legs ∨ e ∈ nearEnds i legs := by
  simp only [nearEnds, farEnds, legEnds, List.mem_map, List.mem_filterMap, List.mem_flatMap,
    Leg.ends, List.mem_cons, Option.mem_toList]
  constructor
  · rintro ⟨l, hl, rfl | he⟩
    · exact .inr ⟨l, hl, rfl⟩
    · exact .inl ⟨l, hl, he⟩
  · rintro (⟨l, hl, he⟩ | ⟨l, hl, rfl⟩)
    · exact ⟨l, hl, .inr he⟩
    · exact ⟨l, hl, .inl rfl⟩

/-- Where no link has the number of one of the owner's sessions, that strikes out all ends. -/
theorem closed_without (ends : List (End n)) (hunlinked : ∀ l ∈ legs, (b i).link l.hop.session = none) :
    (b.without ends).closed (nearEnds i legs) = b.without (ends ++ nearEnds i legs) := by
  refine Books.ext ?_ ?_ (by simp) (by simp)
  · intro j x
    by_cases hnear : (j, x) ∈ nearEnds i legs <;> simp [hnear]
  · intro j x
    by_cases hend : (j, x) ∈ ends
    · simp [hend]
    · by_cases hnear : (j, x) ∈ nearEnds i legs
      · obtain ⟨l, hl, heq⟩ := List.mem_map.1 hnear
        obtain ⟨rfl, rfl⟩ := Prod.mk.inj heq
        simp [hend, hunlinked l hl]
      · simp [hend, hnear]

/-- The ends at the hops and those at the owner are all ends. -/
theorem without_legEnds (b : Books n) (i : Fin n) (legs : List (Leg n)) :
    b.without (farEnds legs ++ nearEnds i legs) = b.without (legEnds i legs) :=
  Books.without_congr b fun e => by rw [List.mem_append, mem_legEnds]

end OnionTunnel.Network

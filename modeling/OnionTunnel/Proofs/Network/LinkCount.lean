import Mathlib.Algebra.BigOperators.Fin
import Mathlib.Data.FinEnum
import Mathlib.Data.Set.Card
import OnionTunnel.Proofs.Node.Links

/-!
# Counting links

How many links the nodes of a network hold, on the books and in the tables. A link that is dropped is
one less, a link that goes on is still one. The depth to which messages are followed counts them.
-/

namespace OnionTunnel

variable {n : Nat}

/-! ### Links on the books -/

/-- The number of links in a row. -/
noncomputable def Row.linkCount (r : Row) : Nat := {id | r.link id ≠ none}.ncard

namespace Books

open Function

variable {b : Books n} {i : Fin n} {id : UInt32}

/-- The number of links on the books. -/
noncomputable def linkCount (b : Books n) : Nat := ∑ j, (b j).linkCount

theorem linkCount_update (b : Books n) (i : Fin n) (r : Row) :
    linkCount (update b i r) + (b i).linkCount = b.linkCount + r.linkCount := by
  have hother : ∑ j ∈ Finset.univ.erase i, (update b i r j).linkCount =
      ∑ j ∈ Finset.univ.erase i, (b j).linkCount :=
    Finset.sum_congr rfl fun j hj => by rw [update_of_ne (Finset.ne_of_mem_erase hj)]
  have hbefore := Finset.add_sum_erase Finset.univ (fun j => (b j).linkCount) (Finset.mem_univ i)
  have hafter := Finset.add_sum_erase Finset.univ (fun j => (update b i r j).linkCount)
    (Finset.mem_univ i)
  rw [hother] at hafter
  simp only [update_self] at hafter
  unfold linkCount
  omega

/-- A change that leaves the links of a node alone. -/
theorem linkCount_update_of_link_eq {r : Row} (h : r.link = (b i).link) :
    linkCount (update b i r) = b.linkCount := by
  have hsame : r.linkCount = (b i).linkCount := by rw [Row.linkCount, Row.linkCount, h]
  have hcount := linkCount_update b i r
  omega

/-- One link more or less is one in the count. -/
theorem linkCount_setLink_none (h : (b i).link id ≠ none) :
    (b.setLink i id none).linkCount + 1 = b.linkCount := by
  have hrow : { x | update (b i).link id none x ≠ none } = { x | (b i).link x ≠ none } \ {id} := by
    ext x
    by_cases hx : x = id
    · simp [hx]
    · simp [hx]
  have hless : Row.linkCount { b i with link := update (b i).link id none } + 1 =
      (b i).linkCount := by
    rw [Row.linkCount, hrow]
    exact Set.ncard_sdiff_singleton_add_one h
  have hcount := linkCount_update b i { b i with link := update (b i).link id none }
  rw [setLink]
  omega

theorem linkCount_setLink_some (l : Link) :
    (b.setLink i id (some l)).linkCount ≤ b.linkCount + 1 := by
  have hrow : { x | update (b i).link id (some l) x ≠ none } =
      insert id { x | (b i).link x ≠ none } := by
    ext x
    by_cases hx : x = id
    · simp [hx]
    · simp [hx]
  have hmore : Row.linkCount { b i with link := update (b i).link id (some l) } ≤
      (b i).linkCount + 1 := by
    rw [Row.linkCount, hrow]
    exact Set.ncard_insert_le id _
  have hcount := linkCount_update b i { b i with link := update (b i).link id (some l) }
  rw [setLink]
  omega

theorem linkCount_setLink_held (h : (b i).link id ≠ none) (l : Link) :
    (b.setLink i id (some l)).linkCount = b.linkCount := by
  have hrow : { x | update (b i).link id (some l) x ≠ none } = { x | (b i).link x ≠ none } := by
    ext x
    by_cases hx : x = id
    · simp [hx, h]
    · simp [hx]
  have hsame : Row.linkCount { b i with link := update (b i).link id (some l) } =
      (b i).linkCount := by
    rw [Row.linkCount, hrow]
    rfl
  have hcount := linkCount_update b i { b i with link := update (b i).link id (some l) }
  rw [setLink]
  omega

/-- There are as many links as ends that have one, or more. -/
theorem length_le_linkCount {ends : List (End n)} (hnodup : ends.Nodup)
    (hlinks : ∀ j x, (j, x) ∈ ends → (b j).link x ≠ none) : ends.length ≤ b.linkCount := by
  induction ends generalizing b with
  | nil => exact Nat.zero_le _
  | cons e rest ih =>
      obtain ⟨j, x⟩ := e
      obtain ⟨hnot, hnodup⟩ := List.nodup_cons.1 hnodup
      have hrest : rest.length ≤ (b.setLink j x none).linkCount := by
        refine ih hnodup fun k y hend => ?_
        have hne : (k, y) ≠ (j, x) := fun heq => hnot (heq ▸ hend)
        simpa only [setLink_apply, if_neg hne] using hlinks k y (List.mem_cons_of_mem _ hend)
      have hcount := linkCount_setLink_none (hlinks j x List.mem_cons_self)
      rw [List.length_cons]
      omega

end Books

namespace Network

/-- The number of links that the nodes hold. -/
def linkCount (net : Network n) : Nat := ∑ i, (net.node i).links.size

theorem linkCount_books (net : Network n) : net.books.linkCount = net.linkCount := by
  refine Finset.sum_congr rfl fun i _ => ?_
  have hkeys : { id | (net.node i).links.get? id ≠ none } =
      ((net.node i).links.keys.toFinset : Set UInt32) := by
    ext id
    simp only [Set.mem_ofPred_eq, Finset.mem_coe, List.mem_toFinset, Table.keys, List.mem_map,
      Prod.exists, exists_and_right, exists_eq_right, Table.mem_entries_iff, ne_eq,
      Option.eq_none_iff_forall_ne_some, not_forall, not_not]
  show Row.linkCount (net.node i).row = _
  rw [Row.linkCount, show (net.node i).row.link = (net.node i).links.get? from rfl, hkeys,
    Set.ncard_coe_finset]
  refine (List.toFinset_card_of_nodup (net.node i).links.nodup_keys).trans ?_
  exact List.length_map _

/-- The depth to which messages are followed is large enough for two frames and every link. -/
theorem depth_eq (net : Network n) : net.depth = 2 * maxFrame + net.linkCount := by
  have hsizes : net.nodes.toList.map (·.links.size) =
      List.ofFn fun i => (net.node i).links.size := by
    refine List.ext_getElem (by simp) fun k hk _ => ?_
    rw [List.getElem_map, List.getElem_ofFn]
    rfl
  rw [linkCount, ← List.sum_ofFn, ← hsizes, List.sum_eq_foldl, List.foldl_map]
  rfl

end Network

end OnionTunnel

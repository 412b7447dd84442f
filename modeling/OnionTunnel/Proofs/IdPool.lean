import Mathlib.Data.List.Nodup
import Mathlib.Data.List.Perm.Subperm
import OnionTunnel.IdPool

/-!
# Searches for identifiers

A search ends with an identifier that is neither zero nor in use, or every draw of it was one or the
other. Consecutive numbers are exhausted only by as many identifiers as one search draws.
-/

namespace OnionTunnel

namespace IdPool

/-- A draw that a search ends with: not zero and not in use. -/
def Fits (inUse : UInt32 → Bool) (id : UInt32) : Prop :=
  id ≠ 0 ∧ inUse id = false

theorem not_fits_iff {inUse : UInt32 → Bool} {id : UInt32} :
    ¬Fits inUse id ↔ id = 0 ∨ inUse id = true := by
  rw [Fits, not_and_or, not_not, Bool.not_eq_false]

theorem search_fits_iff {inUse : UInt32 → Bool} {id : UInt32} :
    (decide (id ≠ 0) && !inUse id) = true ↔ Fits inUse id := by
  simp [Fits]

/-- What is found is the first draw that fits. -/
theorem search_some {draw : Nat → UInt32} {inUse : UInt32 → Bool} {attempts position found : Nat}
    (h : search draw inUse attempts position = some found) :
    ∃ k < attempts, found = position + k ∧ Fits inUse (draw found) ∧
      ∀ j < k, ¬Fits inUse (draw (position + j)) := by
  induction attempts generalizing position with
  | zero => cases h
  | succ attempts ih =>
      rw [search] at h
      split at h
      · next hfit =>
        obtain rfl := Option.some.inj h
        exact ⟨0, Nat.succ_pos attempts, rfl, search_fits_iff.1 hfit,
          fun j hj => absurd hj (Nat.not_lt_zero j)⟩
      · next hmisfit =>
        obtain ⟨k, hk, rfl, hfits, hfirst⟩ := ih h
        refine ⟨k + 1, Nat.succ_lt_succ hk, Nat.add_right_comm position 1 k, hfits, ?_⟩
        intro j hj
        cases j with
        | zero => exact fun hfit => hmisfit (search_fits_iff.2 hfit)
        | succ j =>
            have hnot := hfirst j (Nat.lt_of_succ_lt_succ hj)
            rwa [Nat.add_right_comm, Nat.add_assoc] at hnot

/-- If none is found, no draw fits. -/
theorem search_none {draw : Nat → UInt32} {inUse : UInt32 → Bool} {attempts position : Nat}
    (h : search draw inUse attempts position = none) :
    ∀ k < attempts, ¬Fits inUse (draw (position + k)) := by
  induction attempts generalizing position with
  | zero =>
      intro k hk
      exact absurd hk (Nat.not_lt_zero k)
  | succ attempts ih =>
      rw [search] at h
      split at h
      · cases h
      · next hmisfit =>
        intro k hk
        cases k with
        | zero => exact fun hfit => hmisfit (search_fits_iff.2 hfit)
        | succ k =>
            have hnot := ih h k (Nat.lt_of_succ_lt_succ hk)
            rwa [Nat.add_right_comm, Nat.add_assoc] at hnot

/-- From some place of a sequence on, every draw of one search is zero or in use. -/
def Exhausts (draw : Nat → UInt32) (attempts : Nat) (inUse : UInt32 → Bool) : Prop :=
  ∃ position, ∀ k < attempts, draw (position + k) = 0 ∨ inUse (draw (position + k)) = true

/-- A search ends with an identifier that is not in use, or the draws are exhausted. -/
theorem allocate_cases (pool : IdPool) (inUse : UInt32 → Bool) :
    ∃ ids : IdPool, ids.draw = pool.draw ∧ ids.attempts = pool.attempts ∧
      ((∃ id, pool.allocate inUse = (.ok id, ids) ∧ id ≠ 0 ∧ inUse id = false) ∨
        (∃ e, pool.allocate inUse = (.error e, ids)) ∧
          Exhausts pool.draw pool.attempts inUse) := by
  rw [allocate]
  cases hsearch : search pool.draw inUse pool.attempts pool.position with
  | some position =>
    obtain ⟨-, -, -, hfits, -⟩ := search_some hsearch
    exact ⟨{ pool with position := position + 1 }, rfl, rfl, .inl ⟨_, rfl, hfits⟩⟩
  | none =>
    have hmisfits := search_none hsearch
    exact ⟨{ pool with position := pool.position + pool.attempts }, rfl, rfl,
      .inr ⟨⟨_, rfl⟩, pool.position, fun k hk => not_fits_iff.1 (hmisfits k hk)⟩⟩

/-- A search for an identifier succeeds while at most `m` identifiers are in use. -/
def Supplies (draw : Nat → UInt32) (attempts m : Nat) : Prop :=
  ∀ (inUse : UInt32 → Bool) (used : List UInt32), used.length ≤ m →
    (∀ id, inUse id = true → id ∈ used) → ¬ Exhausts draw attempts inUse

/-- A pool that supplies enough identifiers finds one. -/
theorem Supplies.finds {pool : IdPool} {m : Nat} (h : Supplies pool.draw pool.attempts m)
    {inUse : UInt32 → Bool} (used : List UInt32) (hlen : used.length ≤ m)
    (hused : ∀ id, inUse id = true → id ∈ used) : ∃ id, (pool.allocate inUse).1 = .ok id := by
  obtain ⟨ids, -, -, ⟨id, hid, -⟩ | ⟨-, hex⟩⟩ := pool.allocate_cases inUse
  · exact ⟨id, by rw [hid]⟩
  · exact (h inUse used hlen hused hex).elim

/-- Consecutive numbers are different, so one search goes past all that are in use. -/
theorem supplies_counting (first : UInt32) {attempts m : Nat} (h : m + 1 < attempts)
    (hmax : attempts ≤ UInt32.size) :
    Supplies (counting first attempts).draw attempts m := by
  rintro inUse used hlen hused ⟨position, hdraws⟩
  have hinj : ∀ k < attempts, ∀ k' < attempts,
      (counting first attempts).draw (position + k) = (counting first attempts).draw (position + k') →
      k = k' := by
    intro k hk k' hk' heq
    have heq' := congrArg UInt32.toNat ((UInt32.add_right_inj first).1 heq)
    simp only [UInt32.toNat_ofNat'] at heq'
    simp only [UInt32.size] at hmax
    omega
  have hnodup : ((List.range attempts).map fun k =>
      (counting first attempts).draw (position + k)).Nodup := by
    refine List.Nodup.map_on ?_ List.nodup_range
    intro k hk k' hk'
    exact hinj k (List.mem_range.1 hk) k' (List.mem_range.1 hk')
  have hsub : ((List.range attempts).map fun k =>
      (counting first attempts).draw (position + k)) ⊆ 0 :: used := by
    intro id hid
    obtain ⟨k, hk, rfl⟩ := List.mem_map.1 hid
    obtain hzero | hin := hdraws k (List.mem_range.1 hk)
    · rw [hzero]
      exact List.mem_cons_self
    · exact List.mem_cons_of_mem 0 (hused _ hin)
  have hle := (List.subperm_of_subset hnodup hsub).length_le
  simp only [List.length_map, List.length_range, List.length_cons] at hle
  omega

end IdPool

end OnionTunnel

import Mathlib.Data.List.Nodup
import Mathlib.Logic.Function.Basic
import OnionTunnel.Table

/-!
# Tables as functions and as lists

Putting a value under a key and erasing a key are updates of the function from keys to values. As a
list, up to order, a table is the entry of a key and the rest; what depends on its keys alone, as
its size does, is the same for tables with the same keys.
-/

namespace OnionTunnel.Table

open Function

variable {κ α β : Type} [DecidableEq κ]

theorem get?_insert (t : Table κ α) (k : κ) (a : α) :
    (t.insert k a).get? = update t.get? k (some a) := by
  funext j
  by_cases h : j = k
  · subst h
    simp
  · simp [h, get?_insert_of_ne]

theorem get?_erase (t : Table κ α) (k : κ) : (t.erase k).get? = update t.get? k none := by
  funext j
  by_cases h : j = k
  · subst h
    simp
  · simp [h, get?_erase_of_ne]

/-! ### Entries -/

section Entries

variable {t : Table κ α} {k : κ} {a : α}

/-- Erasing a key that has no value changes nothing. -/
theorem entries_erase_of_absent (h : t.get? k = none) : (t.erase k).entries = t.entries := by
  apply List.filter_eq_self.2
  rintro ⟨j, b⟩ hmem
  have hget := (t.mem_entries_iff j b).1 hmem
  apply decide_eq_true
  rintro rfl
  cases h.symm.trans hget

theorem entries_insert_of_absent (h : t.get? k = none) (a : α) :
    (t.insert k a).entries = (k, a) :: t.entries :=
  congrArg ((k, a) :: ·) (entries_erase_of_absent h)

/-- A table is the value under a key and the rest. -/
theorem perm_cons_erase (h : t.get? k = some a) : t.entries.Perm ((k, a) :: (t.erase k).entries) := by
  have hfresh : (k, a) ∉ (t.erase k).entries := by
    rw [mem_entries_iff, get?_erase_self]
    exact nofun
  have hnodup : ∀ t : Table κ α, t.entries.Nodup := fun t => List.Nodup.of_map _ t.nodup_keys
  apply (List.perm_ext_iff_of_nodup (hnodup t) (List.nodup_cons.2 ⟨hfresh, hnodup _⟩)).2
  rintro ⟨j, b⟩
  rw [List.mem_cons, mem_entries_iff, mem_entries_iff, Prod.mk.injEq]
  by_cases hj : j = k
  · subst hj
    rw [get?_erase_self, h]
    simp [eq_comm]
  · simp [get?_erase_of_ne t hj, hj]

theorem entries_eq_nil_iff : t.entries = [] ↔ ∀ k, t.get? k = none := by
  constructor
  · intro h k
    rw [get?, h]
    rfl
  · intro h
    apply List.eq_nil_iff_forall_not_mem.2
    rintro ⟨k, a⟩ hmem
    cases (h k).symm.trans ((t.mem_entries_iff k a).1 hmem)

end Entries

/-! ### Keys -/

theorem mem_keys_iff (t : Table κ α) (k : κ) : k ∈ t.keys ↔ t.contains k = true := by
  rw [keys, List.mem_map, contains, Option.isSome_iff_exists]
  constructor
  · rintro ⟨⟨_, a⟩, hmem, rfl⟩
    exact ⟨a, (t.mem_entries_iff _ a).1 hmem⟩
  · rintro ⟨a, ha⟩
    exact ⟨(k, a), (t.mem_entries_iff k a).2 ha, rfl⟩

/-- Tables with the same keys have the same size. -/
theorem size_eq_of_contains {t : Table κ α} {u : Table κ β}
    (h : ∀ k, t.contains k = u.contains k) : t.size = u.size := by
  have hperm : t.keys.Perm u.keys := by
    apply (List.perm_ext_iff_of_nodup t.nodup_keys u.nodup_keys).2
    intro k
    rw [← keys, ← keys, mem_keys_iff, mem_keys_iff, h k]
  simpa [keys, size] using hperm.length_eq

end OnionTunnel.Table

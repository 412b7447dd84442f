/-!
# Finite tables

A table holds at most one value per key. Sessions, links, tunnels and directory entries live in
tables. The newest entry comes first; no answer depends on that order.
-/

namespace OnionTunnel

/-- A finite map, kept as its list of entries, no two of which have one key. -/
structure Table (κ α : Type) where
  entries : List (κ × α)
  nodup_keys : (entries.map (·.1)).Nodup
  deriving Repr

namespace Table

variable {κ α : Type} [DecidableEq κ]

/-- The table with no entries. -/
def empty : Table κ α := ⟨[], List.nodup_nil⟩

instance : Inhabited (Table κ α) := ⟨empty⟩

/-- The value under a key. -/
def get? (t : Table κ α) (k : κ) : Option α :=
  (t.entries.find? fun e => e.1 = k).map (·.2)

/-- Whether a key has a value. -/
def contains (t : Table κ α) (k : κ) : Bool :=
  (t.get? k).isSome

/-- The table of the entries that pass a test. -/
def filter (t : Table κ α) (p : κ → α → Bool) : Table κ α where
  entries := t.entries.filter fun e => p e.1 e.2
  nodup_keys := t.nodup_keys.sublist (List.filter_sublist.map _)

/-- The table without a key. -/
def erase (t : Table κ α) (k : κ) : Table κ α :=
  t.filter fun j _ => j ≠ k

/-- The table with a value under a key, in place of an earlier one. -/
def insert (t : Table κ α) (k : κ) (a : α) : Table κ α where
  entries := (k, a) :: (t.erase k).entries
  nodup_keys := by
    refine List.nodup_cons.2 ⟨?_, (t.erase k).nodup_keys⟩
    simp [erase, filter]

/-- The table of a list of entries; of those with one key the last one counts. -/
def ofList (entries : List (κ × α)) : Table κ α :=
  entries.foldl (fun t e => t.insert e.1 e.2) empty

/-- The number of keys. -/
def size (t : Table κ α) : Nat := t.entries.length

/-- The keys, newest first. -/
def keys (t : Table κ α) : List κ := t.entries.map (·.1)

/-- The values, newest first. -/
def values (t : Table κ α) : List α := t.entries.map (·.2)

/-- The empty table has no values. -/
@[simp] theorem get?_empty (k : κ) : (empty : Table κ α).get? k = none := rfl

/-- A key reads back what was put under it. -/
@[simp] theorem get?_insert_self (t : Table κ α) (k : κ) (a : α) :
    (t.insert k a).get? k = some a := by
  simp [get?, insert, erase, filter]

/-- An erased key has no value. -/
@[simp] theorem get?_erase_self (t : Table κ α) (k : κ) : (t.erase k).get? k = none := by
  simp [get?, erase, filter]

/-- Erasing one key leaves the others alone. -/
theorem get?_erase_of_ne (t : Table κ α) {j k : κ} (h : j ≠ k) :
    (t.erase k).get? j = t.get? j := by
  simp only [get?, erase, filter]
  congr 1
  rw [List.find?_filter]
  congr 1
  funext e
  by_cases hj : e.1 = j <;> simp [hj, h]

/-- Putting a value under one key leaves the others alone. -/
theorem get?_insert_of_ne (t : Table κ α) {j k : κ} (a : α) (h : j ≠ k) :
    (t.insert k a).get? j = t.get? j := by
  have hk : ¬ k = j := fun e => h e.symm
  rw [← get?_erase_of_ne t h]
  simp [get?, insert, hk]

/-- The entries of a table are its keys with their values. -/
theorem mem_entries_iff (t : Table κ α) (k : κ) (a : α) :
    (k, a) ∈ t.entries ↔ t.get? k = some a := by
  obtain ⟨es, h⟩ := t
  simp only [get?]
  induction es with
  | nil => simp
  | cons e es ih =>
    obtain ⟨j, b⟩ := e
    rw [List.map_cons, List.nodup_cons] at h
    rw [List.mem_cons, ih h.2, List.find?_cons]
    by_cases hj : j = k
    · subst hj
      have hk : (es.find? fun e => e.1 = j) = none := by
        rw [List.find?_eq_none]
        intro e he hk
        exact h.1 (List.mem_map.2 ⟨e, he, by simpa using hk⟩)
      simp [hk, eq_comm (a := b)]
    · have hk : ¬ k = j := fun e => hj e.symm
      simp [hj, hk]

/-- A filtered table keeps the values that pass the test. -/
theorem get?_filter (t : Table κ α) (p : κ → α → Bool) (k : κ) :
    (t.filter p).get? k = (t.get? k).filter (p k) := by
  apply Option.ext
  intro a
  rw [← mem_entries_iff, Option.filter_eq_some_iff, ← mem_entries_iff]
  simp [filter]

end Table

end OnionTunnel

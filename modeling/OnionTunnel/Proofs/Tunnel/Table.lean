import Mathlib.Data.Finmap
import OnionTunnel.Proofs.IdPool.Draws
import OnionTunnel.Proofs.Table
import OnionTunnel.Tunnel.Table

/-!
# A table of tunnels keeps a set and a map apart

An identifier in the table of an owner's tunnels is one that a tunnel is being built under, or that
of a ready tunnel. A `Roster` keeps the first ones as a set and the ready tunnels as a map, with
nothing in common. Whatever calls the table gets, it answers them as the roster does.
-/

namespace OnionTunnel

namespace TunnelTable

/-- A call of the table of an owner's tunnels. -/
inductive Call where
  | reserve
  | complete (tunnel : Tunnel)
  | abandon (id : UInt32)
  | get (id : UInt32)
  | remove (id : UInt32)
  | size

/-- What a call answers. -/
inductive Answer where
  | reserved (result : Except IdExhausted UInt32)
  | completed (tunnel : Tunnel)
  | abandoned
  | found (tunnel : Option Tunnel)
  | removed (tunnel : Option Tunnel)
  | counted (number : Nat)

/-- A call that takes a tunnel out of sight: its removal, or another one ready under its
identifier. -/
def Hides (id : UInt32) : Call → Prop
  | .complete tunnel => tunnel.id = id
  | .remove id' => id' = id
  | _ => False

/-- What a table answers to a call, and what it is after the call. -/
def call (t : TunnelTable) : Call → Answer × TunnelTable
  | .reserve => (.reserved t.reserve.1, t.reserve.2)
  | .complete tunnel => (.completed tunnel, t.complete tunnel)
  | .abandon id => (.abandoned, t.abandon id)
  | .get id => (.found (t.get? id), t)
  | .remove id => (.removed (t.take id).1, (t.take id).2)
  | .size => (.counted t.size, t)

/-- What a table answers to calls one after the other. -/
def answers (t : TunnelTable) : List Call → List Answer
  | [] => []
  | c :: cs => (t.call c).1 :: (t.call c).2.answers cs

/-- What a table is after calls. -/
def after (t : TunnelTable) (cs : List Call) : TunnelTable :=
  cs.foldl (fun t c => (t.call c).2) t

end TunnelTable

/-- The identifiers that tunnels are being built under and, apart from them, the ready tunnels. -/
structure Roster where
  building : Finset UInt32
  ready : Finmap fun _ : UInt32 => Tunnel
  apart : ∀ id ∈ building, id ∉ ready

namespace Roster

/-- Nothing is being built, and nothing is ready. -/
def empty : Roster where
  building := ∅
  ready := ∅
  apart _ _ := Finmap.notMem_empty

/-- Whether an identifier is in use, one way or the other. -/
def taken (m : Roster) (id : UInt32) : Bool := decide (id ∈ m.building ∨ id ∈ m.ready)

/-- A tunnel is begun under an identifier that no ready tunnel has. -/
def start (m : Roster) (id : UInt32) (h : id ∉ m.ready) : Roster where
  building := insert id m.building
  ready := m.ready
  apart := by
    intro j hj
    obtain rfl | hj := Finset.mem_insert.1 hj
    · exact h
    · exact m.apart j hj

/-- A tunnel is no longer being built but ready. -/
def complete (m : Roster) (tunnel : Tunnel) : Roster where
  building := m.building.erase tunnel.id
  ready := m.ready.insert tunnel.id tunnel
  apart := by
    intro j hj hmem
    obtain ⟨hne, hj⟩ := Finset.mem_erase.1 hj
    obtain rfl | hmem := Finmap.mem_insert.1 hmem
    · exact hne rfl
    · exact m.apart j hj hmem

/-- Nothing is built under an identifier any more. -/
def abandon (m : Roster) (id : UInt32) : Roster where
  building := m.building.erase id
  ready := m.ready
  apart j hj := m.apart j (Finset.mem_of_mem_erase hj)

/-- A ready tunnel is forgotten. -/
def remove (m : Roster) (id : UInt32) : Roster where
  building := m.building
  ready := m.ready.erase id
  apart j hj hmem := m.apart j hj (Finmap.mem_erase.1 hmem).2

/-! ### What an identifier stands for -/

/-- What an identifier stands for. -/
def slot (m : Roster) (id : UInt32) : Option Slot :=
  if id ∈ m.building then some .building else (m.ready.lookup id).map .ready

theorem slot_eq_building_iff {m : Roster} {id : UInt32} :
    m.slot id = some .building ↔ id ∈ m.building := by
  unfold slot
  split
  · next h => simp [h]
  · next h => simp [h]

theorem slot_eq_ready_iff {m : Roster} {id : UInt32} {tunnel : Tunnel} :
    m.slot id = some (.ready tunnel) ↔ m.ready.lookup id = some tunnel := by
  unfold slot
  split
  · next h => simp [Finmap.lookup_eq_none.2 (m.apart id h)]
  · simp

theorem slot_isSome (m : Roster) (id : UInt32) : (m.slot id).isSome = m.taken id := by
  unfold slot taken
  split
  · next h => simp [h]
  · next h => simp [h, ← Finmap.lookup_isSome]

open Function

theorem slot_start (m : Roster) (id : UInt32) (h : id ∉ m.ready) :
    (m.start id h).slot = update m.slot id (some .building) := by
  funext j
  by_cases hj : j = id
  · subst hj
    rw [update_self]
    exact slot_eq_building_iff.2 (Finset.mem_insert_self j _)
  · rw [update_of_ne hj]
    simp only [slot, start, Finset.mem_insert, hj, false_or]

theorem slot_complete (m : Roster) (tunnel : Tunnel) :
    (m.complete tunnel).slot = update m.slot tunnel.id (some (.ready tunnel)) := by
  funext j
  by_cases hj : j = tunnel.id
  · subst hj
    rw [update_self]
    exact slot_eq_ready_iff.2 (Finmap.lookup_insert _)
  · rw [update_of_ne hj]
    simp only [slot, complete, Finset.mem_erase, Finmap.lookup_insert_of_ne _ hj, ne_eq, hj,
      not_false_eq_true, true_and]

/-- Giving up an identifier that nothing is built under changes nothing. -/
theorem slot_abandon (m : Roster) (id : UInt32) : (m.abandon id).slot =
    if id ∈ m.building then update m.slot id none else m.slot := by
  funext j
  split
  · next hid =>
    by_cases hj : j = id
    · subst hj
      rw [update_self]
      simp only [slot, abandon, Finset.mem_erase, ne_eq, not_true_eq_false, false_and, if_false,
        Finmap.lookup_eq_none.2 (m.apart j hid), Option.map_none]
    · rw [update_of_ne hj]
      simp only [slot, abandon, Finset.mem_erase, ne_eq, hj, not_false_eq_true, true_and]
  · next hid => simp only [slot, abandon, Finset.erase_eq_of_notMem hid]

/-- Forgetting an identifier that no ready tunnel has changes nothing. -/
theorem slot_remove (m : Roster) (id : UInt32) : (m.remove id).slot =
    if id ∈ m.ready then update m.slot id none else m.slot := by
  funext j
  by_cases hj : j = id
  · subst hj
    split
    · next hid =>
      have hfree : j ∉ m.building := fun hmem => m.apart j hmem hid
      rw [update_self]
      simp only [slot, remove, if_neg hfree, Finmap.lookup_erase, Option.map_none]
    · next hid =>
      simp only [slot, remove, Finmap.lookup_erase, Finmap.lookup_eq_none.2 hid]
  · have hsame : (m.remove id).slot j = m.slot j := by
      simp only [slot, remove, Finmap.lookup_erase_ne hj]
    split
    · rw [update_of_ne hj, hsame]
    · exact hsame

/-! ### Calls -/

/-- What a call answers, and what becomes of the roster and of the place in the draws. -/
inductive Step (draw : Nat → UInt32) (attempts : Nat) :
    Roster → Nat → TunnelTable.Call → TunnelTable.Answer → Roster → Nat → Prop
  | reserved {m : Roster} {place next : Nat} {id : UInt32}
      (search : IdPool.Search draw attempts m.taken place (.ok id) next) (nonzero : id ≠ 0)
      (unbuilt : id ∉ m.building) (unready : id ∉ m.ready) :
      Step draw attempts m place .reserve (.reserved (.ok id)) (m.start id unready) next
  | exhausted {m : Roster} {place next : Nat} {e : IdExhausted}
      (search : IdPool.Search draw attempts m.taken place (.error e) next) :
      Step draw attempts m place .reserve (.reserved (.error e)) m next
  | complete (m : Roster) (place : Nat) (tunnel : Tunnel) :
      Step draw attempts m place (.complete tunnel) (.completed tunnel) (m.complete tunnel) place
  | abandon (m : Roster) (place : Nat) (id : UInt32) :
      Step draw attempts m place (.abandon id) .abandoned (m.abandon id) place
  | get (m : Roster) (place : Nat) (id : UInt32) :
      Step draw attempts m place (.get id) (.found (m.ready.lookup id)) m place
  | remove (m : Roster) (place : Nat) (id : UInt32) :
      Step draw attempts m place (.remove id) (.removed (m.ready.lookup id)) (m.remove id) place
  | size (m : Roster) (place : Nat) :
      Step draw attempts m place .size (.counted m.ready.keys.card) m place

/-- What calls one after the other answer. -/
inductive Run (draw : Nat → UInt32) (attempts : Nat) :
    Roster → Nat → List TunnelTable.Call → List TunnelTable.Answer → Roster → Nat → Prop
  | nil {m : Roster} {place : Nat} : Run draw attempts m place [] [] m place
  | cons {m m' m'' : Roster} {place place' place'' : Nat} {c : TunnelTable.Call}
      {a : TunnelTable.Answer} {cs : List TunnelTable.Call} {as : List TunnelTable.Answer}
      (first : Step draw attempts m place c a m' place')
      (rest : Run draw attempts m' place' cs as m'' place'') :
      Run draw attempts m place (c :: cs) (a :: as) m'' place''

section Unique

variable {draw : Nat → UInt32} {attempts place place₁ place₂ : Nat} {m m₁ m₂ : Roster}
  {c : TunnelTable.Call} {a₁ a₂ : TunnelTable.Answer} {cs : List TunnelTable.Call}
  {as₁ as₂ : List TunnelTable.Answer}

theorem Step.unique (h : Step draw attempts m place c a₁ m₁ place₁)
    (h' : Step draw attempts m place c a₂ m₂ place₂) : a₁ = a₂ ∧ m₁ = m₂ ∧ place₁ = place₂ := by
  cases h with
  | reserved search =>
    cases h' with
    | reserved search' =>
      obtain ⟨hid, rfl⟩ := search.unique search'
      obtain rfl := Except.ok.inj hid
      exact ⟨rfl, rfl, rfl⟩
    | exhausted search' => cases (search.unique search').1
  | exhausted search =>
    cases h' with
    | reserved search' => cases (search.unique search').1
    | exhausted search' =>
      obtain ⟨he, rfl⟩ := search.unique search'
      obtain rfl := Except.error.inj he
      exact ⟨rfl, rfl, rfl⟩
  | complete | abandon | get | remove | size =>
    cases h'
    exact ⟨rfl, rfl, rfl⟩

theorem Run.unique (h : Run draw attempts m place cs as₁ m₁ place₁)
    (h' : Run draw attempts m place cs as₂ m₂ place₂) : as₁ = as₂ := by
  induction h generalizing as₂ with
  | nil =>
    cases h'
    rfl
  | cons first _ ih =>
    cases h' with
    | cons first' rest' =>
      obtain ⟨rfl, rfl, rfl⟩ := first.unique first'
      rw [ih rest']

end Unique

section Ready

open TunnelTable (Hides)

variable {draw : Nat → UInt32} {attempts place place' : Nat} {m m' : Roster} {id : UInt32}
  {tunnel : Tunnel}

/-- A tunnel is ready after a call that makes it ready, or if it was ready before and is not
hidden. -/
theorem Step.lookup_iff {c : TunnelTable.Call} {a : TunnelTable.Answer}
    (h : Step draw attempts m place c a m' place') : m'.ready.lookup id = some tunnel ↔
      (c = .complete tunnel ∧ tunnel.id = id) ∨ (m.ready.lookup id = some tunnel ∧ ¬Hides id c) := by
  cases h with
  | reserved | exhausted | abandon | get | size => simp [start, Roster.abandon, Hides]
  | complete ready =>
    have hcall : TunnelTable.Call.complete ready = .complete tunnel ↔ ready = tunnel := by simp
    by_cases hid : ready.id = id
    · subst hid
      simp only [Roster.complete, Finmap.lookup_insert, Option.some.injEq, Hides, not_true_eq_false,
        and_false, or_false, hcall]
      exact ⟨fun hsame => ⟨hsame, hsame ▸ rfl⟩, And.left⟩
    · have hother : ¬(ready = tunnel ∧ tunnel.id = id) := by
        rintro ⟨rfl, hsame⟩
        exact hid hsame
      simp only [Roster.complete, Finmap.lookup_insert_of_ne _ (Ne.symm hid), Hides, hid,
        not_false_eq_true, and_true, hcall, hother, false_or]
  | remove j =>
    by_cases hid : j = id
    · subst hid
      simp [Roster.remove, Hides]
    · simp [Roster.remove, Hides, hid, Finmap.lookup_erase_ne (Ne.symm hid)]

/-- A tunnel is ready if it has been made ready and nothing has hidden it since. -/
theorem Run.lookup_iff {cs : List TunnelTable.Call} {as : List TunnelTable.Answer}
    (h : Run draw attempts m place cs as m' place') : m'.ready.lookup id = some tunnel ↔
      (∃ before later, cs = before ++ .complete tunnel :: later ∧ tunnel.id = id ∧
        ∀ c ∈ later, ¬Hides id c) ∨ (m.ready.lookup id = some tunnel ∧ ∀ c ∈ cs, ¬Hides id c) := by
  induction h with
  | nil => simp
  | @cons _ _ _ _ _ _ c _ cs _ first _ ih =>
    rw [ih, first.lookup_iff, List.forall_mem_cons]
    constructor
    · rintro (⟨before, later, rfl, hid, hlater⟩ | ⟨⟨rfl, hid⟩ | ⟨hready, hc⟩, hcs⟩)
      · exact .inl ⟨c :: before, later, rfl, hid, hlater⟩
      · exact .inl ⟨[], cs, rfl, hid, hcs⟩
      · exact .inr ⟨hready, hc, hcs⟩
    · rintro (⟨before, later, hcalls, hid, hlater⟩ | ⟨hready, hc, hcs⟩)
      · cases before with
        | nil =>
          obtain ⟨rfl, rfl⟩ := List.cons.inj hcalls
          exact .inr ⟨.inl ⟨rfl, hid⟩, hlater⟩
        | cons first before =>
          obtain ⟨rfl, rfl⟩ := List.cons.inj hcalls
          exact .inl ⟨before, later, rfl, hid, hlater⟩
      · exact .inr ⟨.inr ⟨hready, hc⟩, hcs⟩

end Ready

end Roster

namespace TunnelTable

variable {t : TunnelTable} {m : Roster} {id : UInt32}

/-- A table holds what a roster says. -/
def Holds (t : TunnelTable) (m : Roster) : Prop := t.slots.get? = m.slot

theorem Holds.get?_eq (h : t.Holds m) (id : UInt32) : t.get? id = m.ready.lookup id := by
  have hslot : t.slots.get? id = m.slot id := congrFun h id
  cases hlookup : m.ready.lookup id with
  | some tunnel =>
    rw [Roster.slot_eq_ready_iff.2 hlookup] at hslot
    rw [get?, hslot]
  | none =>
    unfold get?
    split
    · next tunnel hready =>
      rw [Roster.slot_eq_ready_iff.1 (hslot.symm.trans hready)] at hlookup
      cases hlookup
    · rfl

theorem Holds.contains_eq (h : t.Holds m) : t.slots.contains = m.taken := by
  funext id
  rw [Table.contains, h, m.slot_isSome]

/-- The ready tunnels of a table are as many as those of the roster. -/
theorem Holds.size_eq (h : t.Holds m) : t.size = m.ready.keys.card := by
  have hkeys : (t.slots.filter fun _ s => decide (s ≠ .building)).keys.toFinset = m.ready.keys := by
    ext id
    rw [List.mem_toFinset, Table.mem_keys_iff, Table.contains, Table.get?_filter, h,
      Finmap.mem_keys, Finmap.mem_iff]
    constructor
    · intro hsome
      obtain ⟨s, hs⟩ := Option.isSome_iff_exists.1 hsome
      obtain ⟨hslot, hs⟩ := Option.filter_eq_some_iff.1 hs
      cases s with
      | building => cases hs
      | ready tunnel => exact ⟨tunnel, Roster.slot_eq_ready_iff.1 hslot⟩
    · rintro ⟨tunnel, hlookup⟩
      rw [Roster.slot_eq_ready_iff.2 hlookup]
      rfl
  have hnodup : (t.slots.filter fun _ s => decide (s ≠ .building)).keys.Nodup :=
    Table.nodup_keys _
  rw [← hkeys, List.toFinset_card_of_nodup hnodup]
  simp only [size, Table.values, Table.keys, Table.filter, List.filter_map, List.length_map]
  rfl

/-! ### Calls -/

theorem holds_empty (ids : IdPool) : (empty ids).Holds .empty := by
  funext id
  rfl

theorem ids_abandon (t : TunnelTable) (id : UInt32) : (t.abandon id).ids = t.ids := by
  unfold TunnelTable.abandon
  split <;> rfl

/-- What is taken out is the ready tunnel that was in sight. -/
theorem take_fst (t : TunnelTable) (id : UInt32) : (t.take id).1 = t.get? id := by
  unfold TunnelTable.take TunnelTable.get?
  split <;> rfl

theorem take_of_ready {tunnel : Tunnel} (h : t.slots.get? id = some (.ready tunnel)) :
    t.take id = (some tunnel, { t with slots := t.slots.erase id }) := by
  rw [TunnelTable.take, h]

theorem take_of_absent (h : t.get? id = none) : t.take id = (none, t) := by
  unfold TunnelTable.get? at h
  unfold TunnelTable.take
  split
  · next heq =>
    rw [heq] at h
    cases h
  · rfl

theorem ids_remove (t : TunnelTable) (id : UInt32) : (t.remove id).ids = t.ids := by
  unfold TunnelTable.remove TunnelTable.take
  split <;> rfl

theorem Holds.complete (h : t.Holds m) (tunnel : Tunnel) :
    (t.complete tunnel).Holds (m.complete tunnel) := by
  rw [Holds, m.slot_complete, ← h]
  exact Table.get?_insert _ _ _

theorem Holds.abandon (h : t.Holds m) (id : UInt32) : (t.abandon id).Holds (m.abandon id) := by
  rw [Holds, m.slot_abandon]
  unfold TunnelTable.abandon
  split
  · next hslot =>
    rw [h] at hslot
    rw [if_pos (Roster.slot_eq_building_iff.1 hslot), ← h]
    exact Table.get?_erase _ _
  · next hslot =>
    rw [h] at hslot
    rw [if_neg fun hid => hslot (Roster.slot_eq_building_iff.2 hid)]
    exact h

theorem Holds.remove (h : t.Holds m) (id : UInt32) : (t.remove id).Holds (m.remove id) := by
  rw [Holds, m.slot_remove]
  unfold TunnelTable.remove TunnelTable.take
  split
  · next tunnel hslot =>
    rw [h] at hslot
    have hready := Finmap.mem_iff.2 ⟨tunnel, Roster.slot_eq_ready_iff.1 hslot⟩
    rw [if_pos hready, ← h]
    exact Table.get?_erase _ _
  · next hslot =>
    rw [if_neg ?_]
    · exact h
    · intro hid
      obtain ⟨tunnel, hlookup⟩ := Finmap.mem_iff.1 hid
      exact hslot tunnel ((congrFun h id).trans (Roster.slot_eq_ready_iff.2 hlookup))

/-- A reservation searches for an identifier that the roster does not have. -/
theorem Holds.reserve (h : t.Holds m) : ∃ m', Roster.Step t.ids.draw t.ids.attempts m t.ids.position
    .reserve (.reserved t.reserve.1) m' t.reserve.2.ids.position ∧ t.reserve.2.Holds m' ∧
    t.reserve.2.ids.draw = t.ids.draw ∧ t.reserve.2.ids.attempts = t.ids.attempts := by
  obtain ⟨hsearch, hdraw, hattempts⟩ := t.ids.search_allocate t.slots.contains
  unfold TunnelTable.reserve
  cases hallocate : t.ids.allocate t.slots.contains with
  | mk r ids =>
    rw [hallocate] at hsearch hdraw hattempts
    rw [h.contains_eq] at hsearch
    cases r with
    | ok id =>
      obtain ⟨hnonzero, htaken⟩ := hsearch.fits
      obtain ⟨hunbuilt, hunready⟩ := not_or.1 (of_decide_eq_false htaken)
      refine ⟨_, .reserved hsearch hnonzero hunbuilt hunready, ?_, hdraw, hattempts⟩
      rw [Holds, m.slot_start, ← h]
      exact Table.get?_insert _ _ _
    | error e => exact ⟨m, .exhausted hsearch, h, hdraw, hattempts⟩

/-- A call is answered as the roster answers it. -/
theorem Holds.call (h : t.Holds m) (c : Call) : ∃ m', Roster.Step t.ids.draw t.ids.attempts m
    t.ids.position c (t.call c).1 m' (t.call c).2.ids.position ∧ (t.call c).2.Holds m' ∧
    (t.call c).2.ids.draw = t.ids.draw ∧ (t.call c).2.ids.attempts = t.ids.attempts := by
  cases c with
  | reserve => exact h.reserve
  | complete tunnel => exact ⟨_, .complete m _ tunnel, h.complete tunnel, rfl, rfl⟩
  | abandon id =>
    simp only [TunnelTable.call, t.ids_abandon, and_true]
    exact ⟨_, .abandon m _ id, h.abandon id⟩
  | get id =>
    simp only [TunnelTable.call, h.get?_eq, and_true]
    exact ⟨_, .get m _ id, h⟩
  | remove id =>
    have hids : (t.take id).2.ids = t.ids := t.ids_remove id
    have hremoved : (t.take id).2.Holds (m.remove id) := h.remove id
    simp only [TunnelTable.call, hids, t.take_fst, h.get?_eq, and_true]
    exact ⟨_, .remove m _ id, hremoved⟩
  | size =>
    simp only [TunnelTable.call, h.size_eq, and_true]
    exact ⟨_, .size m _, h⟩

/-- Calls are answered as the roster answers them, one after the other. -/
theorem Holds.run (h : t.Holds m) (cs : List Call) : ∃ m', Roster.Run t.ids.draw t.ids.attempts m
    t.ids.position cs (t.answers cs) m' (t.after cs).ids.position ∧ (t.after cs).Holds m' := by
  induction cs generalizing t m with
  | nil => exact ⟨m, .nil, h⟩
  | cons c cs ih =>
    obtain ⟨m', hstep, h', hdraw, hattempts⟩ := h.call c
    obtain ⟨m'', hrun, h''⟩ := ih h'
    rw [hdraw, hattempts] at hrun
    exact ⟨m'', .cons hstep hrun, h''⟩

/-! ### Identifiers in use -/

theorem after_append (t : TunnelTable) (cs ds : List Call) :
    t.after (cs ++ ds) = (t.after cs).after ds := List.foldl_append

theorem reserve_fst (t : TunnelTable) :
    t.reserve.1 = (t.ids.allocate t.slots.contains).1 := by
  unfold TunnelTable.reserve
  split
  all_goals next hallocate => rw [hallocate]

/-- What is reserved was in no use, and something is being built under it from then on. -/
theorem reserve_slots (t : TunnelTable) :
    (∃ id, t.reserve.1 = .ok id ∧ id ≠ 0 ∧ t.slots.get? id = none ∧
        t.reserve.2.slots = t.slots.insert id .building) ∨
      (∃ e, t.reserve.1 = .error e) ∧ t.reserve.2.slots = t.slots := by
  obtain ⟨ids, -, -, ⟨id, hid, hnonzero, hfree⟩ | ⟨⟨e, he⟩, -⟩⟩ :=
    t.ids.allocate_cases t.slots.contains
  · rw [Table.contains, Option.isSome_eq_false_iff, Option.isNone_iff_eq_none] at hfree
    left
    refine ⟨id, ?_, hnonzero, hfree, ?_⟩
    all_goals rw [TunnelTable.reserve, hid]
  · right
    refine ⟨⟨e, ?_⟩, ?_⟩
    all_goals rw [TunnelTable.reserve, he]

/-- A call that gives an identifier back: an abandonment while a tunnel is being built under it, or
the removal of a ready tunnel. -/
def Frees (t : TunnelTable) (id : UInt32) : Call → Prop
  | .abandon id' => id' = id ∧ t.slots.get? id = some .building
  | .remove id' => id' = id ∧ ∃ tunnel, t.slots.get? id = some (.ready tunnel)
  | _ => False

/-- An identifier stays in use unless it is given back. -/
theorem slot_call {c : Call} (h : t.slots.get? id ≠ none) (hkept : ¬t.Frees id c) :
    (t.call c).2.slots.get? id ≠ none := by
  have hinsert : ∀ (j : UInt32) (s : Slot), (t.slots.insert j s).get? id ≠ none := by
    intro j s
    by_cases hj : id = j
    · subst hj
      rw [Table.get?_insert_self]
      exact nofun
    · rwa [Table.get?_insert_of_ne _ _ hj]
  cases c with
  | reserve =>
    show t.reserve.2.slots.get? id ≠ none
    obtain ⟨j, -, -, -, hslots⟩ | ⟨-, hslots⟩ := t.reserve_slots
    · rw [hslots]
      exact hinsert j _
    · rwa [hslots]
  | complete tunnel => exact hinsert tunnel.id _
  | abandon j =>
    show (t.abandon j).slots.get? id ≠ none
    unfold TunnelTable.abandon
    split
    · next hslot =>
      have hj : id ≠ j := fun hj => hkept ⟨hj.symm, hj ▸ hslot⟩
      rwa [Table.get?_erase_of_ne _ hj]
    · exact h
  | remove j =>
    show (t.take j).2.slots.get? id ≠ none
    unfold TunnelTable.take
    split
    · next tunnel hslot =>
      have hj : id ≠ j := fun hj => hkept ⟨hj.symm, tunnel, hj ▸ hslot⟩
      rwa [Table.get?_erase_of_ne _ hj]
    · exact h
  | get | size => exact h

/-- If an identifier is no longer in use, it has been given back. -/
theorem exists_frees {cs : List Call} (h : t.slots.get? id ≠ none)
    (hfree : (t.after cs).slots.get? id = none) :
    ∃ before c later, cs = before ++ c :: later ∧ (t.after before).Frees id c := by
  induction cs generalizing t with
  | nil => exact absurd hfree h
  | cons c cs ih =>
    by_cases hc : t.Frees id c
    · exact ⟨[], c, cs, rfl, hc⟩
    · obtain ⟨before, c', later, rfl, hfrees⟩ := ih (slot_call h hc) hfree
      exact ⟨c :: before, c', later, rfl, hfrees⟩

/-! ### All calls -/

theorem exists_frees_of_reserve {cs : List Call} (hfirst : t.reserve.1 = .ok id)
    (hagain : (t.reserve.2.after cs).reserve.1 = .ok id) :
    ∃ before c later, cs = before ++ c :: later ∧ (t.reserve.2.after before).Frees id c := by
  apply exists_frees
  · obtain ⟨j, hj, -, -, hslots⟩ | ⟨⟨e, he⟩, -⟩ := t.reserve_slots
    · obtain rfl := Except.ok.inj (hj.symm.trans hfirst)
      rw [hslots, Table.get?_insert_self]
      exact nofun
    · cases he.symm.trans hfirst
  · obtain ⟨j, hj, -, hfree, -⟩ | ⟨⟨e, he⟩, -⟩ := (t.reserve.2.after cs).reserve_slots
    · obtain rfl := Except.ok.inj (hj.symm.trans hagain)
      exact hfree
    · cases he.symm.trans hagain

/-- A table of tunnels answers as a set of identifiers and a map of ready tunnels that are kept
apart.

Whatever the calls and the draws are, the answers are those of a roster, and a roster has no others:
an identifier that is reserved is the first of the next draws that is not zero and in neither the
set nor the map, and a reservation fails only if there is none. So an identifier is reserved again
only after it has been given back, by an abandonment while a tunnel was being built under it or by
the removal of a ready tunnel. A tunnel is in sight exactly if it has been made ready and has been
neither removed nor replaced since. -/
theorem keeps_roster (ids : IdPool) :
    (∀ cs, ∃ m place, Roster.Run ids.draw ids.attempts .empty ids.position cs
      ((empty ids).answers cs) m place ∧ ((empty ids).after cs).Holds m) ∧
    (∀ cs as m place, Roster.Run ids.draw ids.attempts .empty ids.position cs as m place →
      as = (empty ids).answers cs) ∧
    (∀ front middle id, ((empty ids).after front).reserve.1 = .ok id →
      ((empty ids).after (front ++ .reserve :: middle)).reserve.1 = .ok id →
      ∃ before c later, middle = before ++ c :: later ∧
        ((empty ids).after (front ++ .reserve :: before)).Frees id c) ∧
    ∀ cs id tunnel, ((empty ids).after cs).get? id = some tunnel ↔
      ∃ before later, cs = before ++ .complete tunnel :: later ∧ tunnel.id = id ∧
        ∀ c ∈ later, ¬Hides id c := by
  have hrun := (holds_empty ids).run
  refine ⟨?_, ?_, ?_, ?_⟩
  · intro cs
    obtain ⟨m, hm, hholds⟩ := hrun cs
    exact ⟨m, _, hm, hholds⟩
  · intro cs as m place hm
    obtain ⟨m', hm', -⟩ := hrun cs
    exact hm.unique hm'
  · intro front middle id hfirst hagain
    have hbehind : ∀ cs, (empty ids).after (front ++ .reserve :: cs) =
        ((empty ids).after front).reserve.2.after cs :=
      fun cs => (empty ids).after_append front (.reserve :: cs)
    rw [hbehind] at hagain
    obtain ⟨before, c, later, rfl, hfrees⟩ := exists_frees_of_reserve hfirst hagain
    exact ⟨before, c, later, rfl, by rwa [hbehind]⟩
  · intro cs id tunnel
    obtain ⟨m, hm, hholds⟩ := hrun cs
    have hempty : ¬(Roster.empty.ready.lookup id = some tunnel ∧ ∀ c ∈ cs, ¬Hides id c) := by
      rintro ⟨⟨⟩, -⟩
    rw [hholds.get?_eq, hm.lookup_iff, or_iff_left hempty]

end TunnelTable

end OnionTunnel

import OnionTunnel.Proofs.IdPool

/-!
# Searches in a row

A search goes through the next draws, at most as many as it may make, and ends with the first one
that fits; the next search begins with the draw after it. An identifier that is in use fits no
more, so searches never end with one that an earlier search has found and that has been in use
since.
-/

namespace OnionTunnel.IdPool

/-- What a search from a place in the draws comes to, and the place where it leaves off. -/
inductive Search (draw : Nat → UInt32) (attempts : Nat) (inUse : UInt32 → Bool) (place : Nat) :
    Except IdExhausted UInt32 → Nat → Prop
  | found {k : Nat} (within : k < attempts) (fits : Fits inUse (draw (place + k)))
      (first : ∀ j < k, ¬Fits inUse (draw (place + j))) :
      Search draw attempts inUse place (.ok (draw (place + k))) (place + k + 1)
  | spent (misfits : ∀ j < attempts, ¬Fits inUse (draw (place + j))) :
      Search draw attempts inUse place (.error ⟨attempts⟩) (place + attempts)

section Search

variable {draw : Nat → UInt32} {attempts place next next' : Nat} {inUse : UInt32 → Bool}
  {r r' : Except IdExhausted UInt32}

/-- A search comes to one thing. -/
theorem Search.unique (h : Search draw attempts inUse place r next)
    (h' : Search draw attempts inUse place r' next') : r = r' ∧ next = next' := by
  cases h with
  | found within fits first =>
    rename_i k
    cases h' with
    | found within' fits' first' =>
      rename_i k'
      obtain hlt | rfl | hgt := Nat.lt_trichotomy k k'
      · exact (first' k hlt fits).elim
      · exact ⟨rfl, rfl⟩
      · exact (first k' hgt fits').elim
    | spent misfits => exact (misfits _ within fits).elim
  | spent misfits =>
    cases h' with
    | found within' fits' _ => exact (misfits _ within' fits').elim
    | spent _ => exact ⟨rfl, rfl⟩

theorem Search.fits {id : UInt32} (h : Search draw attempts inUse place (.ok id) next) :
    Fits inUse id := by
  cases h with
  | found _ fits _ => exact fits

end Search

/-- A pool searches its next draws, and leaves off where the search does. -/
theorem search_allocate (pool : IdPool) (inUse : UInt32 → Bool) :
    Search pool.draw pool.attempts inUse pool.position (pool.allocate inUse).1
      (pool.allocate inUse).2.position ∧ (pool.allocate inUse).2.draw = pool.draw ∧
      (pool.allocate inUse).2.attempts = pool.attempts := by
  rw [allocate]
  cases hfound : search pool.draw inUse pool.attempts pool.position with
  | some place =>
    obtain ⟨k, hk, rfl, hfits, hfirst⟩ := search_some hfound
    exact ⟨.found hk hfits hfirst, rfl, rfl⟩
  | none => exact ⟨.spent (search_none hfound), rfl, rfl⟩

/-! ### Searches in a row -/

/-- What a pool comes to in searches one after the other, each with its own identifiers in use. -/
def allocateAll (pool : IdPool) : List (UInt32 → Bool) → List (Except IdExhausted UInt32) × IdPool
  | [] => ([], pool)
  | inUse :: more =>
    ((pool.allocate inUse).1 :: ((pool.allocate inUse).2.allocateAll more).1,
      ((pool.allocate inUse).2.allocateAll more).2)

/-- Searches each of which goes on where the one before it has left off. -/
inductive Searches (draw : Nat → UInt32) (attempts : Nat) :
    Nat → List (UInt32 → Bool) → List (Except IdExhausted UInt32) → Nat → Prop
  | nil {place : Nat} : Searches draw attempts place [] [] place
  | cons {place next last : Nat} {inUse : UInt32 → Bool} {more : List (UInt32 → Bool)}
      {r : Except IdExhausted UInt32} {rs : List (Except IdExhausted UInt32)}
      (first : Search draw attempts inUse place r next)
      (rest : Searches draw attempts next more rs last) :
      Searches draw attempts place (inUse :: more) (r :: rs) last

section Searches

variable {draw : Nat → UInt32} {attempts place last last' : Nat} {inUses : List (UInt32 → Bool)}
  {rs rs' : List (Except IdExhausted UInt32)}

theorem Searches.unique (h : Searches draw attempts place inUses rs last)
    (h' : Searches draw attempts place inUses rs' last') : rs = rs' ∧ last = last' := by
  induction h generalizing rs' with
  | nil =>
    cases h'
    exact ⟨rfl, rfl⟩
  | cons first rest ih =>
    cases h' with
    | cons first' rest' =>
      obtain ⟨rfl, rfl⟩ := first.unique first'
      obtain ⟨rfl, rfl⟩ := ih rest'
      exact ⟨rfl, rfl⟩

/-- What is found fits the identifiers that are in use at the time. -/
theorem Searches.fits (h : Searches draw attempts place inUses rs last) :
    ∀ x ∈ inUses.zip rs, ∀ id, x.2 = .ok id → Fits x.1 id := by
  induction h with
  | nil => exact fun _ hx => nomatch hx
  | cons first _ ih =>
    rw [List.zip_cons_cons, List.forall_mem_cons]
    refine ⟨?_, ih⟩
    rintro id rfl
    exact first.fits

theorem Searches.ne_zero (h : Searches draw attempts place inUses rs last) :
    ∀ id, .ok id ∈ rs → id ≠ 0 := by
  induction h with
  | nil => exact fun _ hid => nomatch hid
  | cons first _ ih =>
    intro id hid
    obtain rfl | hid := List.mem_cons.1 hid
    · exact first.fits.1
    · exact ih id hid

theorem Searches.length_eq (h : Searches draw attempts place inUses rs last) :
    rs.length = inUses.length := by
  induction h with
  | nil => rfl
  | cons _ _ ih => rw [List.length_cons, List.length_cons, ih]

/-- Everything that earlier searches have found is in use in the later ones. -/
def KeptInUse (inUses : List (UInt32 → Bool)) (rs : List (Except IdExhausted UInt32)) : Prop :=
  (inUses.zip rs).Pairwise fun earlier later => ∀ id, earlier.2 = .ok id → later.1 id = true

/-- What stays in use is not found again. -/
theorem Searches.nodup (h : Searches draw attempts place inUses rs last)
    (hkept : KeptInUse inUses rs) : (rs.filterMap Except.toOption).Nodup := by
  have hapart : (inUses.zip rs).Pairwise fun earlier later =>
      ∀ id, earlier.2 = .ok id → ∀ id', later.2 = .ok id' → id ≠ id' := by
    refine hkept.imp_of_mem ?_
    rintro earlier later - hlater hin id hid id' hid' rfl
    have hfree := (h.fits later hlater id hid').2
    rw [hin id hid] at hfree
    cases hfree
  have hok : ∀ {r : Except IdExhausted UInt32} {id}, r.toOption = some id → r = .ok id := by
    rintro (e | id) _ ⟨⟩
    rfl
  have hresults : (inUses.zip rs).map Prod.snd = rs := List.map_snd_zip (Nat.le_of_eq h.length_eq)
  rw [← hresults, List.filterMap_map]
  refine hapart.filterMap _ ?_
  rintro earlier later hne id hid id' hid'
  exact hne id (hok hid) id' (hok hid')

end Searches

/-- A pool that searches again and again goes through its draws in a row. -/
theorem searches_allocateAll (pool : IdPool) (inUses : List (UInt32 → Bool)) :
    Searches pool.draw pool.attempts pool.position inUses (pool.allocateAll inUses).1
      (pool.allocateAll inUses).2.position ∧ (pool.allocateAll inUses).2.draw = pool.draw ∧
      (pool.allocateAll inUses).2.attempts = pool.attempts := by
  induction inUses generalizing pool with
  | nil => exact ⟨.nil, rfl, rfl⟩
  | cons inUse more ih =>
    obtain ⟨hfirst, hdraw, hattempts⟩ := pool.search_allocate inUse
    obtain ⟨hrest, hdraw', hattempts'⟩ := ih (pool.allocate inUse).2
    rw [hdraw, hattempts] at hrest
    exact ⟨.cons hfirst hrest, hdraw'.trans hdraw, hattempts'.trans hattempts⟩

/-- Searches go through the draws in turn, and what stays in use is found once.

Each search ends with the first of the next draws that is neither zero nor in use, or with an error
when there is none among as many as it may make; it uses up the draws that it looks at and no
others, and the next search goes on with the following one. This says all about a row of searches.
No search finds zero, and the identifiers that are found are different if each of them is in use in
all later searches. -/
theorem searches_in_turn (pool : IdPool) (inUses : List (UInt32 → Bool)) :
    (∀ rs ids, pool.allocateAll inUses = (rs, ids) ↔
      Searches pool.draw pool.attempts pool.position inUses rs ids.position ∧
        ids.draw = pool.draw ∧ ids.attempts = pool.attempts) ∧
    (∀ id, .ok id ∈ (pool.allocateAll inUses).1 → id ≠ 0) ∧
    (KeptInUse inUses (pool.allocateAll inUses).1 →
      ((pool.allocateAll inUses).1.filterMap Except.toOption).Nodup) := by
  obtain ⟨hsearches, hdraw, hattempts⟩ := pool.searches_allocateAll inUses
  refine ⟨?_, hsearches.ne_zero, hsearches.nodup⟩
  · intro rs ids
    constructor
    · intro h
      rw [h] at hsearches hdraw hattempts
      exact ⟨hsearches, hdraw, hattempts⟩
    · rintro ⟨h, hdraw', hattempts'⟩
      obtain ⟨hrs, hposition⟩ := hsearches.unique h
      have hids : (pool.allocateAll inUses).2 = ids := by
        obtain ⟨draw, position, attempts⟩ := ids
        exact congr (congr (congrArg mk (hdraw.trans hdraw'.symm)) hposition)
          (hattempts.trans hattempts'.symm)
      exact Prod.ext hrs hids

/-- A search that finds nothing in two draws leaves the third to the next one. -/
example : ((ofList [7, 0, 7, 9] 2).allocateAll
    [fun _ => false, fun id => id = 7, fun id => id = 7]).1 = [.ok 7, .error ⟨2⟩, .ok 9] := by
  decide

end OnionTunnel.IdPool

import OnionTunnel.Proofs.Node.Strays

/-!
# Ledgers

A ledger lists the ready tunnels of all nodes with the ends that they take up. It is sound if the
tunnels are on the books, the strands of each one hang there, and no two share an end. It is closed if
every tunnel stands and every session on the books is an end of one. What the owners of tunnels do
keeps a ledger sound.

## Implementation notes

A payload for several hops that do not pass cells on to each other goes astray, and what it does to
the strand at the first hop is not known. So a sound ledger lists the strands of a tunnel apart from
its hops. A tunnel that is one route has no other strand than its hops.
-/

namespace OnionTunnel

/-- The hops of a tunnel pass cells on to each other, or there is only one. -/
def Tunnel.IsRoute (t : Tunnel) : Prop := t.mode = .relayed ∨ t.hops.length = 1

namespace Network

open Function

variable {n : Nat} {S : Setting n} {i : Fin n} {b b' : Books n} {id : UInt32}

/-- A ready tunnel, as the books of all nodes show it: its hops, and the strands that hang there. -/
structure Line (n : Nat) where
  mode : TunnelMode
  legs : List (Leg n)
  hostkey : Bytes
  strands : List (List (End n))

/-- The tunnel as its owner knows it. -/
def Line.tunnel (t : Line n) (id : UInt32) : Tunnel := ⟨id, t.mode, t.legs.map (·.hop), t.hostkey⟩

/-- What a tunnel takes up, at the hops and beyond and at its owner. -/
def Line.ends (t : Line n) (i : Fin n) : List (End n) := t.strands.flatten ++ nearEnds i t.legs

/-- The tunnels of each owner by identifier. -/
abbrev Ledger (n : Nat) := Fin n → UInt32 → Option (Line n)

namespace Ledger

/-- The ledger with another tunnel of an owner. -/
def set (L : Ledger n) (i : Fin n) (id : UInt32) (t? : Option (Line n)) : Ledger n :=
  fun j x => if (j, x) = (i, id) then t? else L j x

/-- An end of one of the tunnels. -/
def Takes (L : Ledger n) (e : End n) : Prop := ∃ i id t, L i id = some t ∧ e ∈ t.ends i

theorem set_cases {L : Ledger n} {t? : Option (Line n)} {j : Fin n} {x : UInt32} {t : Line n}
    (h : L.set i id t? j x = some t) :
    ((j, x) = (i, id) ∧ t? = some t) ∨ ((j, x) ≠ (i, id) ∧ L j x = some t) := by
  unfold set at h
  split at h
  · next heq => exact .inl ⟨heq, h⟩
  · next hne => exact .inr ⟨hne, h⟩

theorem set_self (L : Ledger n) (t? : Option (Line n)) : L.set i id t? i id = t? := if_pos rfl

theorem set_of_ne (L : Ledger n) (t? : Option (Line n)) {j : Fin n} {x : UInt32}
    (h : (j, x) ≠ (i, id)) : L.set i id t? j x = L j x := if_neg h

end Ledger

variable {L : Ledger n} {t : Line n}

/-- The hops of a tunnel stand, and nothing hangs beyond them. -/
structure Upright (S : Setting n) (b : Books n) (i : Fin n) (t : Line n) : Prop
    extends Stands S b i t.mode t.legs where
  strands_eq : t.strands.flatten = farEnds t.legs

theorem Upright.mem_ends (h : Upright S b i t) {e : End n} : e ∈ t.ends i ↔ e ∈ legEnds i t.legs := by
  rw [Line.ends, h.strands_eq, List.mem_append, mem_legEnds]

theorem Upright.congr (h : Upright S b i t)
    (hsame : ∀ j x, (j, x) ∈ t.ends i →
      (b' j).session x = (b j).session x ∧ (b' j).link x = (b j).link x) : Upright S b' i t where
  toStands := h.toStands.congr fun j x hend => hsame j x (h.mem_ends.2 hend)
  strands_eq := h.strands_eq

/-- A tunnel is on the books with its strands. If it is one route, it stands. -/
structure Listed (S : Setting n) (b : Books n) (i : Fin n) (id : UInt32) (t : Line n) : Prop where
  nonempty : t.legs ≠ []
  hung : Hung S b i t.mode t.legs t.strands
  upright : (t.tunnel id).IsRoute → Upright S b i t

theorem Listed.congr (h : Listed S b i id t)
    (hsame : ∀ j x, (j, x) ∈ t.ends i →
      (b' j).session x = (b j).session x ∧ (b' j).link x = (b j).link x) : Listed S b' i id t where
  nonempty := h.nonempty
  hung := h.hung.congr hsame
  upright hroute := (h.upright hroute).congr hsame

/-- The tunnels of a ledger are those on the books, and their strands hang there apart from each
other. -/
structure Sound (S : Setting n) (b : Books n) (L : Ledger n) : Prop where
  slot : ∀ i id, (b i).slot id = (L i id).map fun t => .ready (t.tunnel id)
  listed : ∀ i id t, L i id = some t → Listed S b i id t
  apart : ∀ i id t, L i id = some t → ∀ i' id' t', L i' id' = some t' → (i, id) ≠ (i', id') →
    ∀ e ∈ t.ends i, e ∉ t'.ends i'
  linksHeld : LinksHeld b

/-- Every tunnel stands, every hop of one has an end at a node, and every session on the books is such
an end or its owner's. -/
structure Closed (S : Setting n) (b : Books n) (L : Ledger n) : Prop where
  upright : ∀ i id t, L i id = some t → Upright S b i t
  far : ∀ i id t, L i id = some t → ∀ l ∈ t.legs, l.far? ≠ none
  taken : ∀ j x, (b j).session x ≠ none → L.Takes (j, x)

/-- Without sessions, links and tunnels on the books, the ledger is empty. -/
theorem sound_empty (hsession : ∀ j x, (b j).session x = none)
    (hlink : ∀ j x, (b j).link x = none) (hslot : ∀ j x, (b j).slot x = none) :
    Sound S b (fun _ _ => none) ∧ Closed S b (fun _ _ => none) := by
  refine ⟨⟨hslot, by simp, by simp, ?_⟩, by simp, by simp, ?_⟩
  · intro j x hsome
    exact (hsome (hlink j x)).elim
  · intro j x hsome
    exact (hsome (hsession j x)).elim

theorem Sound.session_ne_none (h : Sound S b L) (ht : L i id = some t) {j : Fin n} {x : UInt32}
    (hend : (j, x) ∈ t.ends i) : (b j).session x ≠ none :=
  (h.listed i id t ht).hung.session_ne_none hend

/-- A ready tunnel on the books is in the ledger. -/
theorem Sound.ready (h : Sound S b L) {tunnel : Tunnel}
    (hready : (b i).slot id = some (.ready tunnel)) : ∃ t, L i id = some t ∧ tunnel = t.tunnel id := by
  rw [h.slot i id] at hready
  obtain ⟨t, ht, heq⟩ := Option.map_eq_some_iff.1 hready
  exact ⟨t, ht, (Slot.ready.inj heq).symm⟩

/-- A tunnel in the ledger is ready on the books. -/
theorem Sound.slot_eq (h : Sound S b L) (ht : L i id = some t) :
    (b i).slot id = some (.ready (t.tunnel id)) := by
  rw [h.slot i id, ht]
  rfl

/-- No identifier is reserved for a tunnel that is not ready. -/
theorem Sound.slot_ne_building (h : Sound S b L) (i : Fin n) (id : UInt32) :
    (b i).slot id ≠ some .building := by
  rw [h.slot i id]
  cases L i id <;> simp

/-! ### Changes of the books -/

/-- A ledger stays sound when sessions come to the books that were not there. -/
theorem Sound.congr (h : Sound S b L)
    (hsession : ∀ j x, (b j).session x ≠ none → (b' j).session x = (b j).session x)
    (hlink : ∀ j x, (b' j).link x = (b j).link x) (hslot : ∀ j, (b' j).slot = (b j).slot) :
    Sound S b' L where
  slot i id := by rw [hslot, h.slot i id]
  listed i id t ht := (h.listed i id t ht).congr fun j x hend =>
    ⟨hsession j x (h.session_ne_none ht hend), hlink j x⟩
  apart := h.apart
  linksHeld j x hsome := by
    rw [hlink] at hsome
    rw [hsession j x (h.linksHeld j x hsome)]
    exact h.linksHeld j x hsome

theorem Closed.congr (h : Closed S b L) (hsession : ∀ j, (b' j).session = (b j).session)
    (hlink : ∀ j, (b' j).link = (b j).link) : Closed S b' L where
  upright i id t ht := (h.upright i id t ht).congr fun j x _ =>
    ⟨by rw [hsession], by rw [hlink]⟩
  far := h.far
  taken j x hsome := h.taken j x (by rwa [← hsession])

/-- A ledger stays sound when one of its tunnels changes on the books, as long as those of the others
do not. -/
theorem Sound.set (h : Sound S b L) {t? : Option (Line n)}
    (hslot : ∀ j x, (b' j).slot x =
      if (j, x) = (i, id) then t?.map fun t => .ready (t.tunnel id) else (b j).slot x)
    (hothers : ∀ j x t, (j, x) ≠ (i, id) → L j x = some t → ∀ k y, (k, y) ∈ t.ends j →
      (b' k).session y = (b k).session y ∧ (b' k).link y = (b k).link y)
    (hlisted : ∀ t, t? = some t → Listed S b' i id t ∧
      ∀ j x t', (j, x) ≠ (i, id) → L j x = some t' → ∀ e ∈ t.ends i, e ∉ t'.ends j)
    (hlinks : LinksHeld b') : Sound S b' (L.set i id t?) where
  slot j x := by
    rw [hslot]
    by_cases heq : (j, x) = (i, id)
    · obtain ⟨rfl, rfl⟩ := Prod.mk.inj heq
      rw [if_pos rfl, L.set_self]
    · rw [if_neg heq, L.set_of_ne _ heq, h.slot j x]
  listed j x t ht := by
    obtain ⟨heq, hnew⟩ | ⟨hne, hold⟩ := Ledger.set_cases ht
    · obtain ⟨rfl, rfl⟩ := Prod.mk.inj heq
      exact (hlisted t hnew).1
    · exact (h.listed j x t hold).congr (hothers j x t hne hold)
  apart j x t ht j' x' t' ht' hne := by
    obtain ⟨heq, hnew⟩ | ⟨hne₁, hold⟩ := Ledger.set_cases ht <;>
      obtain ⟨heq', hnew'⟩ | ⟨hne₂, hold'⟩ := Ledger.set_cases ht'
    · exact (hne (heq.trans heq'.symm)).elim
    · obtain ⟨rfl, rfl⟩ := Prod.mk.inj heq
      exact (hlisted t hnew).2 j' x' t' hne₂ hold'
    · obtain ⟨rfl, rfl⟩ := Prod.mk.inj heq'
      exact fun e hend hend' => (hlisted t' hnew').2 j x t hne₁ hold e hend' hend
    · exact h.apart j x t hold j' x' t' hold' hne
  linksHeld := hlinks

section Entering
variable {s? : Option Slot}

/-- The ends of a tunnel that has been built are those of no other one. -/
theorem Built.not_mem_of_session (h : Built S (b.setSlot i id s?) i t.mode t.legs b') {j : Fin n}
    {x : UInt32} (hsome : (b j).session x ≠ none) :
    (j, x) ∉ legEnds i t.legs ∧ (b' j).session x = (b j).session x ∧
      (b' j).link x = (b j).link x := by
  have hsession := h.leaks.session j x (by simpa using hsome)
  have hlink := h.leaks.link j x
  simp only [Books.without_apply, Books.setSlot_apply] at hsession hlink
  split at hsession
  · exact (hsome hsession.symm).elim
  · next hnot =>
    rw [if_neg hnot] at hlink
    exact ⟨hnot, hsession, hlink⟩

/-- A tunnel that has been built is entered in the ledger. -/
theorem Sound.enter (h : Sound S b L) (hlisted : Listed S b' i id t) (hupright : Upright S b' i t)
    (hbuilt : Built S (b.setSlot i id (some (.ready (t.tunnel id)))) i t.mode t.legs b') :
    Sound S b' (L.set i id (some t)) := by
  refine h.set ?_ ?_ ?_ hbuilt.linksHeld
  · intro j x
    have hslot := hbuilt.leaks.slot j
    simp only [Books.without_apply, Books.setSlot_apply] at hslot
    rw [hslot]
    rfl
  · intro j x t' _ ht' k y hend
    exact (hbuilt.not_mem_of_session (h.session_ne_none ht' hend)).2
  · rintro _ ⟨⟩
    refine ⟨hlisted, ?_⟩
    rintro j x t' - ht' ⟨k, y⟩ hend hend'
    exact (hbuilt.not_mem_of_session (h.session_ne_none ht' hend')).1 (hupright.mem_ends.1 hend)

theorem Closed.enter (h : Closed S b L) (hS : Sound S b L) (hfree : (b i).slot id = none)
    (hbuilt : Built S (b.setSlot i id s?) i t.mode t.legs b') (hupright : Upright S b' i t)
    (hfar : ∀ l ∈ t.legs, l.far? ≠ none) : Closed S b' (L.set i id (some t)) where
  upright j x t' ht' := by
    obtain ⟨heq, ht⟩ | ⟨-, ht'⟩ := Ledger.set_cases ht'
    · obtain ⟨rfl, rfl⟩ := Prod.mk.inj heq
      rwa [← Option.some.inj ht]
    · exact (h.upright j x t' ht').congr fun k y hend =>
        (hbuilt.not_mem_of_session (hS.session_ne_none ht' hend)).2
  far j x t' ht' := by
    obtain ⟨-, heq⟩ | ⟨-, ht'⟩ := Ledger.set_cases ht'
    · rwa [← Option.some.inj heq]
    · exact h.far j x t' ht'
  taken j x hsome := by
    by_cases hend : (j, x) ∈ legEnds i t.legs
    · exact ⟨i, id, t, L.set_self _, hupright.mem_ends.2 hend⟩
    · have hkept := congrArg (fun b : Books n => (b j).session x) (hbuilt.tidy hfar)
      simp only [Books.without_apply, Books.setSlot_apply, if_neg hend] at hkept
      obtain ⟨i', id', t', ht', hend'⟩ := h.taken j x (hkept ▸ hsome)
      refine ⟨i', id', t', ?_, hend'⟩
      rw [L.set_of_ne, ht']
      rintro ⟨⟩
      rw [hS.slot, ht'] at hfree
      cases hfree

end Entering

/-! ### Stray cells -/

/-- The strands of a tunnel have been left as they were or longer. -/
structure Restrung (S : Setting n) (b : Books n) (i : Fin n) (t : Line n)
    (strands : List (List (End n))) (b' : Books n) : Prop
    extends Spared b t.strands.flatten b' where
  hung : Hung S b' i t.mode t.legs strands
  fresh : ∀ j x, (j, x) ∈ strands.flatten → (j, x) ∈ t.strands.flatten ∨ (b j).session x = none

theorem Restrung.refl (h : Hung S b i t.mode t.legs t.strands) (hlinks : LinksHeld b) :
    Restrung S b i t t.strands b where
  toSpared := .refl hlinks
  hung := h
  fresh _ _ := .inl

/-- The strand at the first hop of a tunnel has been left as it was or longer. -/
theorem Strayed.restrung {hop : OpenHop} {hops : List OpenHop} {ends : List (End n)}
    {rest : List (List (End n))} (h : Strayed S b hop.target ends b')
    (hhung : Hung S b i t.mode t.legs t.strands)
    (hhops : Node.notified t.mode (t.legs.map (·.hop)) = hop :: hops)
    (hstrands : t.strands = ends :: rest) : ∃ strands, Restrung S b i t strands b' := by
  obtain ⟨more, hmore, hnodup, hfresh⟩ := h.strand
  have hold := hhung.nodup
  have hhangs := hhung.hangs
  rw [hstrands, List.flatten_cons] at hold
  rw [hhops, hstrands] at hhangs
  obtain ⟨hends, hrest, hapart⟩ := List.nodup_append.1 hold
  obtain ⟨hfirst, hothers⟩ := List.forall₂_cons.1 hhangs
  have hkept : ∀ j x, (j, x) ∈ rest.flatten →
      (b' j).session x = (b j).session x ∧ (b' j).link x = (b j).link x := by
    intro j x hend
    have hsome := (Strands.ne_none hothers hend).1
    exact ⟨h.session j x hsome, h.link j x hsome fun hend' => hapart _ hend' _ hend rfl⟩
  refine ⟨(ends ++ more) :: rest, h.toSpared.mono ?_, ?_, ?_⟩
  · rw [hstrands, List.flatten_cons]
    exact List.subset_append_left _ _
  · have hnear : ∀ l ∈ t.legs, (b i).session l.hop.session ≠ none := fun l hl => by
      simp [(hhung.near l hl).started]
    constructor
    case near =>
      intro l hl
      have hl' := hhung.near l hl
      exact ⟨(h.session i _ (hnear l hl)).trans hl'.started, hl'.handshake_eq, hl'.usable⟩
    case unlinked =>
      intro l hl
      have hnone := hhung.unlinked l hl
      rwa [h.link i _ (hnear l hl) fun hend => (hfirst.ne_none hend).2 hnone]
    case hangs =>
      rw [hhops]
      exact .cons hmore (Strands.congr hothers hkept)
    case nodup =>
      rw [List.flatten_cons, List.append_assoc]
      refine List.nodup_append.2 ⟨hends, List.nodup_append.2 ⟨hnodup, hrest, ?_⟩, ?_⟩
      · rintro ⟨j, x⟩ hnew _ hend rfl
        exact (Strands.ne_none hothers hend).1 (hfresh j x hnew)
      · rintro ⟨j, x⟩ hend _ hend' rfl
        obtain hnew | hend' := List.mem_append.1 hend'
        · exact (hfirst.ne_none hend).1 (hfresh j x hnew)
        · exact hapart _ hend _ hend' rfl
  · intro j x hend
    rw [hstrands, List.flatten_cons]
    rw [List.flatten_cons, List.append_assoc] at hend
    obtain hend | hend := List.mem_append.1 hend
    · exact .inl (List.mem_append_left _ hend)
    · obtain hnew | hend := List.mem_append.1 hend
      · exact .inr (hfresh j x hnew)
      · exact .inl (List.mem_append_right _ hend)

/-- The new strands of a tunnel are entered in the ledger. -/
theorem Sound.restring (h : Sound S b L) (ht : L i id = some t) (hroute : ¬ (t.tunnel id).IsRoute)
    {strands : List (List (End n))} (hrestrung : Restrung S b i t strands b') :
    Sound S b' (L.set i id (some ⟨t.mode, t.legs, t.hostkey, strands⟩)) := by
  have hold : ∀ j x t', (j, x) ≠ (i, id) → L j x = some t' → ∀ k y, (k, y) ∈ t'.ends j →
      (b k).session y ≠ none ∧ (k, y) ∉ t.strands.flatten ∧ (k, y) ∉ nearEnds i t.legs := by
    intro j x t' hne ht' k y hend
    have hnot := h.apart j x t' ht' i id t ht hne (k, y) hend
    rw [Line.ends, List.mem_append, not_or] at hnot
    exact ⟨h.session_ne_none ht' hend, hnot⟩
  refine h.set ?_ ?_ ?_ hrestrung.linksHeld
  · intro j x
    rw [hrestrung.slot]
    split
    · next heq =>
      obtain ⟨rfl, rfl⟩ := Prod.mk.inj heq
      exact (h.slot_eq ht).trans rfl
    · rfl
  · intro j x t' hne ht' k y hend
    obtain ⟨hsome, hnot, -⟩ := hold j x t' hne ht' k y hend
    exact ⟨hrestrung.session k y hsome, hrestrung.link k y hsome hnot⟩
  · rintro _ ⟨⟩
    refine ⟨⟨(h.listed i id t ht).nonempty, hrestrung.hung, fun hroute' => (hroute hroute').elim⟩, ?_⟩
    rintro j x t' hne ht' ⟨k, y⟩ hend hend'
    obtain ⟨hsome, hnot, hnear⟩ := hold j x t' hne ht' k y hend'
    obtain hend | hend := List.mem_append.1 hend
    · obtain hend | hfree := hrestrung.fresh k y hend
      · exact hnot hend
      · exact hsome hfree
    · exact hnear hend

/-! ### Striking out -/

/-- A tunnel that is torn down is struck out of the ledger. -/
theorem Sound.strike (h : Sound S b L) (ht : L i id = some t) :
    Sound S ((b.setSlot i id none).without (t.ends i)) (L.set i id none) := by
  refine h.set ?_ ?_ nofun ?_
  · intro j x
    simp only [Books.without_apply, Books.setSlot_apply, Option.map_none]
  · intro j x t' hne ht' k y hend
    have hnot := h.apart j x t' ht' i id t ht hne (k, y) hend
    simp [hnot]
  · intro j x hsome
    simp only [Books.without_apply, Books.setSlot_apply] at hsome ⊢
    split at hsome
    · exact (hsome rfl).elim
    · next hnot => simpa [hnot] using h.linksHeld j x hsome

theorem Closed.strike (h : Closed S b L) (hS : Sound S b L) (ht : L i id = some t) :
    Closed S ((b.setSlot i id none).without (t.ends i)) (L.set i id none) where
  upright j x t' ht' := by
    obtain ⟨-, ⟨⟩⟩ | ⟨hne, ht'⟩ := Ledger.set_cases ht'
    refine (h.upright j x t' ht').congr fun k y hend => ?_
    have hnot := hS.apart j x t' ht' i id t ht hne (k, y) hend
    simp [hnot]
  far j x t' ht' := by
    obtain ⟨-, ⟨⟩⟩ | ⟨-, ht'⟩ := Ledger.set_cases ht'
    exact h.far j x t' ht'
  taken j x hsome := by
    simp only [Books.without_apply, Books.setSlot_apply] at hsome
    split at hsome
    · exact (hsome rfl).elim
    · next hnot =>
      obtain ⟨i', id', t', ht', hend⟩ := h.taken j x hsome
      refine ⟨i', id', t', ?_, hend⟩
      rw [L.set_of_ne, ht']
      rintro ⟨⟩
      obtain rfl := Option.some.inj (ht'.symm.trans ht)
      exact hnot hend

end Network

end OnionTunnel

import OnionTunnel.Proofs.Network.Routes

/-!
# Strands

A strand hangs where cells and notices are sent to: the link there, the link that it goes on to, and
so on. The hops of a route are a strand of its owner; but a strand may be longer than the owner
knows.
-/

namespace OnionTunnel

/-- Where a cell for an open hop goes. -/
def OpenHop.target (h : OpenHop) : Downstream := ⟨h.address, h.link⟩

namespace Network

variable {n : Nat} {S : Setting n} {b b' : Books n} {next? : Option Downstream}
  {ends : List (End n)}

/-- The ends that hang where something is sent to. Each one has an established session and a link,
and where a link goes on the next one hangs. A strand is lost at a session service. -/
inductive Strand (S : Setting n) (b : Books n) : Option Downstream → List (End n) → Prop
  | nil : Strand S b none []
  | lost {next : Downstream} {j : Fin n}
      (hdest : S.serviceAt? next.address = some ⟨j, .sessions⟩) : Strand S b (some next) []
  | cons {next : Downstream} {j : Fin n} {y : Session} {link : Link} {rest : List (End n)}
      (hdest : S.serviceAt? next.address = some ⟨j, .peers⟩)
      (hy : (b j).session next.link = some y) (husable : y.Usable)
      (hlink : (b j).link next.link = some link) (hrest : Strand S b link.downstream? rest) :
      Strand S b (some next) ((j, next.link) :: rest)

/-- A strand hangs wherever its own ends are the same. -/
theorem Strand.congr (h : Strand S b next? ends)
    (hsame : ∀ j x, (j, x) ∈ ends →
      (b' j).session x = (b j).session x ∧ (b' j).link x = (b j).link x) :
    Strand S b' next? ends := by
  induction h with
  | nil => exact .nil
  | lost hdest => exact .lost hdest
  | cons hdest hy husable hlink _ ih =>
      obtain ⟨hsession, hlink'⟩ := hsame _ _ List.mem_cons_self
      exact .cons hdest (hsession.trans hy) husable (hlink'.trans hlink)
        (ih fun j x hend => hsame j x (List.mem_cons_of_mem _ hend))

/-- The ends of a strand are sessions and links on the books. -/
theorem Strand.ne_none (h : Strand S b next? ends) {j : Fin n} {x : UInt32} (hend : (j, x) ∈ ends) :
    (b j).session x ≠ none ∧ (b j).link x ≠ none := by
  induction h with
  | nil => cases hend
  | lost => cases hend
  | cons _ hy _ hlink _ ih =>
      obtain heq | hend := List.mem_cons.1 hend
      · obtain ⟨rfl, rfl⟩ := Prod.mk.inj heq
        simp [hy, hlink]
      · exact ih hend

theorem Strand.eq_nil (h : Strand S b none ends) : ends = [] := by
  cases h
  rfl

/-- The hops of a route hang where the first one is dialled. -/
theorem Linked.strand {peer : Identity} {i : Fin n} {legs : List (Leg n)}
    (hlinked : Linked S b peer legs)
    (hheld : ∀ l ∈ legs, ∀ f, l.far? = some f → FarHeld S b i l f) :
    Strand S b (legs.head?.map Leg.target) (farEnds legs) := by
  induction legs with
  | nil => exact .nil
  | cons l rest ih =>
      have hrest := ih hlinked.2 fun l' hl' => hheld l' (List.mem_cons_of_mem l hl')
      have hreached := hlinked.1
      unfold Reached at hreached
      cases hfar : l.far? with
      | some f =>
        simp only [hfar] at hreached
        have hf := hheld l List.mem_cons_self f hfar
        have hends : farEnds (l :: rest) = (f.node, l.hop.link) :: farEnds rest := by
          simp [farEnds, Leg.farEnd?, hfar]
        rw [hends]
        exact .cons hreached.1 hf.accepted hf.usable hreached.2 hrest
      | none =>
        simp only [hfar] at hreached
        obtain ⟨hlast, j, hdest⟩ := hreached
        obtain rfl : rest = [] := by simpa using hlast
        have hends : farEnds [l] = [] := by simp [farEnds, Leg.farEnd?, hfar]
        rw [hends]
        exact .lost hdest

/-- The strands that hang where open hops are, one for each hop. -/
abbrev Strands (S : Setting n) (b : Books n) : List OpenHop → List (List (End n)) → Prop :=
  List.Forall₂ fun hop ends => Strand S b (some hop.target) ends

section Strands
variable {hops : List OpenHop} {strands : List (List (End n))}

theorem Strands.congr (h : Strands S b hops strands)
    (hsame : ∀ j x, (j, x) ∈ strands.flatten →
      (b' j).session x = (b j).session x ∧ (b' j).link x = (b j).link x) :
    Strands S b' hops strands := by
  induction h with
  | nil => exact .nil
  | cons hfirst _ ih =>
      rw [List.flatten_cons] at hsame
      exact .cons (hfirst.congr fun j x hend => hsame j x (List.mem_append_left _ hend))
        (ih fun j x hend => hsame j x (List.mem_append_right _ hend))

theorem Strands.ne_none (h : Strands S b hops strands) {j : Fin n} {x : UInt32}
    (hend : (j, x) ∈ strands.flatten) : (b j).session x ≠ none ∧ (b j).link x ≠ none := by
  induction h with
  | nil => cases hend
  | cons hfirst _ ih =>
      rw [List.flatten_cons] at hend
      exact (List.mem_append.1 hend).elim hfirst.ne_none ih

end Strands

end Network

end OnionTunnel

import OnionTunnel.Network.Timed

/-!
# Processes that end at once

A process that neither pauses nor gets stuck ends with one result and one state, at the moment it
began. Such a process is never cut off, however short the limit is. `Sees` tells what is true of the
states that it looks at on the way.
-/

namespace OnionTunnel.Timed

variable {S α β : Type}

/-- The process ends at once, with a result and a state. -/
inductive Ends (now : Instant) : Timed S α → S → α → S → Prop
  | done {a : α} {s : S} : Ends now (.done a) s a s
  | read {k : Instant → S → Timed S α} {s s' : S} {a : α} (h : Ends now (k now s) s a s') :
      Ends now (.read k) s a s'
  | write {p : Timed S α} {s s₁ s' : S} {a : α} (h : Ends now p s₁ a s') :
      Ends now (.write s₁ p) s a s'

namespace Ends

variable {now : Instant} {p : Timed S α} {s s₁ s' : S} {a : α}

/-- Going on with the result of a process that ends at once. -/
theorem bind {f : α → Timed S β} {b : β} (hp : Ends now p s a s₁) (hf : Ends now (f a) s₁ b s') :
    Ends now (p.bind f) s b s' := by
  induction hp with
  | done => exact hf
  | read _ ih => exact .read (ih hf)
  | write _ ih => exact .write (ih hf)

/-- No limit cuts off a process that ends at once. -/
theorem within (limit : Nat) (hp : Ends now p s a s') :
    Ends now (p.within limit) s (some a) s' := by
  induction hp with
  | done => exact .done
  | read _ ih => exact .read ih
  | write _ ih => exact .write ih

theorem run_eq (hp : Ends now p s a s') : p.run now s = (some a, now, s') := by
  induction hp with
  | done => rfl
  | read _ ih => exact ih
  | write _ ih => exact ih

/-- There is one end that a process comes to at once. -/
theorem unique {b : α} {s₂ : S} (h : Ends now p s a s₁) (h' : Ends now p s b s₂) :
    a = b ∧ s₁ = s₂ := by
  have hrun := h.run_eq.symm.trans h'.run_eq
  simp only [Prod.mk.injEq, Option.some.injEq, true_and] at hrun
  exact hrun

/-- Where a process goes on with the result of another one, both come to their ends. -/
theorem bind_cases {f : α → Timed S β} {b : β} (h : Ends now (p.bind f) s b s') :
    ∃ a s₁, Ends now p s a s₁ ∧ Ends now (f a) s₁ b s' := by
  induction p generalizing s with
  | done a => exact ⟨a, s, .done, h⟩
  | read k ih =>
      cases h with
      | read h =>
        obtain ⟨a, s₁, hp, hf⟩ := ih now s h
        exact ⟨a, s₁, .read hp, hf⟩
  | write s₀ p ih =>
      cases h with
      | write h =>
        obtain ⟨a, s₁, hp, hf⟩ := ih h
        exact ⟨a, s₁, .write hp, hf⟩
  | pause t p _ => cases h
  | stuck => cases h

/-- What comes to its end at once under a limit does so without it. -/
theorem of_within {limit : Nat} {o : Option α} (h : Ends now (p.within limit) s o s') :
    ∃ a, o = some a ∧ Ends now p s a s' := by
  induction p generalizing s with
  | done a =>
      cases h
      exact ⟨a, rfl, .done⟩
  | read k ih =>
      cases h with
      | read h =>
        obtain ⟨a, ho, hp⟩ := ih now s h
        exact ⟨a, ho, .read hp⟩
  | write s₀ p ih =>
      cases h with
      | write h =>
        obtain ⟨a, ho, hp⟩ := ih h
        exact ⟨a, ho, .write hp⟩
  | pause t p _ =>
      rw [Timed.within] at h
      split at h <;> cases h
  | stuck => cases h

end Ends

/-- Until it first pauses, the process looks only at states of which a statement is true. -/
def Sees (V : S → Prop) (now : Instant) : Timed S α → S → Prop
  | done _, _ => True
  | read k, s => V s ∧ Sees V now (k now s) s
  | write s p, _ => Sees V now p s
  | pause _ _, _ => True
  | stuck, _ => True

namespace Sees

variable {V : S → Prop} {now : Instant} {p : Timed S α} {s s' : S} {a : α}

theorem always (h : ∀ s, V s) (p : Timed S α) (s : S) : p.Sees V now s := by
  induction p generalizing s with
  | done a => trivial
  | read k ih => exact ⟨h s, ih now s s⟩
  | write s₁ p ih => exact ih s₁
  | pause t p _ => trivial
  | stuck => trivial

theorem mono {W : S → Prop} (h : p.Sees V now s) (hVW : ∀ s, V s → W s) : p.Sees W now s := by
  induction p generalizing s with
  | done a => trivial
  | read k ih => exact ⟨hVW s h.1, ih now s h.2⟩
  | write s₁ p ih => exact ih h
  | pause t p _ => trivial
  | stuck => trivial

/-- What comes first sees no more than the whole. -/
theorem first {f : α → Timed S β} (h : (p.bind f).Sees V now s) : p.Sees V now s := by
  induction p generalizing s with
  | done a => trivial
  | read k ih => exact ⟨h.1, ih now s h.2⟩
  | write s₁ p ih => exact ih h
  | pause t p _ => trivial
  | stuck => trivial

/-- What goes on with the result sees no more than the whole. -/
theorem rest {f : α → Timed S β} (hp : Ends now p s a s') (h : (p.bind f).Sees V now s) :
    (f a).Sees V now s' := by
  induction hp with
  | done => exact h
  | read _ ih => exact ih h.2
  | write _ ih => exact ih h

/-- A limit cuts a process off no earlier than at its first pause. -/
theorem of_within {limit : Nat} (h : (p.within limit).Sees V now s) : p.Sees V now s := by
  induction p generalizing s with
  | done a => trivial
  | read k ih => exact ⟨h.1, ih now s h.2⟩
  | write s₁ p ih => exact ih h
  | pause t p _ => trivial
  | stuck => trivial

end Sees

end OnionTunnel.Timed

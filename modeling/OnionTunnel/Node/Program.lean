import OnionTunnel.Message.Basic
import OnionTunnel.Message.Error

/-!
# Programs

A program is what one party does: it looks at its own state and the clock, changes its state, and
sends messages. What a message brings back is not part of the program, so a statement about a
program holds whatever the others answer.
-/

namespace OnionTunnel

/-- What came of sending a message: an error, or the reply if there was one. -/
abbrev Outcome := Except FrameError (Option Message)

/-- What a party with state `σ` does until it has an `α`. -/
inductive Program (σ α : Type) where
  | done (a : α)
  | read (next : Instant → σ → Program σ α)
  | write (s : σ) (next : Program σ α)
  /-- Sends a message and goes on with what came of it; past the limit, that is a timeout. -/
  | send (dest : Address) (m : Message) (limit : Option Duration) (next : Outcome → Program σ α)

namespace Program

variable {σ α β : Type}

/-- Goes on with what a program ends with. -/
def bind : Program σ α → (α → Program σ β) → Program σ β
  | done a, f => f a
  | read k, f => read fun now s => (k now s).bind f
  | write s p, f => write s (p.bind f)
  | send dest m limit k, f => send dest m limit fun r => (k r).bind f

instance : Monad (Program σ) where
  pure := done
  bind := bind

instance : MonadStateOf σ (Program σ) where
  get := read fun _ s => done s
  set s := write s (done ())
  modifyGet f := read fun _ s => write (f s).2 (done (f s).1)

/-- The clock. -/
def clock : Program σ Instant := read fun now _ => done now

/-- Sends a message; past the limit, what comes of it is a timeout. -/
def exchange (limit : Option Duration) (dest : Address) (m : Message) : Program σ Outcome :=
  send dest m limit done

/-- Ending at once changes nothing of what follows. -/
@[simp] theorem done_bind (a : α) (f : α → Program σ β) : (done a).bind f = f a := rfl

/-- Going on with what a program ends with is that program. -/
theorem bind_done (p : Program σ α) : p.bind done = p := by
  induction p with
  | done a => rfl
  | read k ih => simp only [bind, ih]
  | write s p ih => simp only [bind, ih]
  | send dest m limit k ih => simp only [bind, ih]

/-- Two continuations follow one after the other. -/
theorem bind_assoc {γ : Type} (p : Program σ α) (f : α → Program σ β) (g : β → Program σ γ) :
    (p.bind f).bind g = p.bind fun a => (f a).bind g := by
  induction p with
  | done a => rfl
  | read k ih => simp only [bind, ih]
  | write s p ih => simp only [bind, ih]
  | send dest m limit k ih => simp only [bind, ih]

end Program

end OnionTunnel

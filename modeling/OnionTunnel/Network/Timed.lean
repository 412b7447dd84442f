import OnionTunnel.Duration

/-!
# Timed processes

A process looks at a shared state and the clock, changes the state, and lets time pass. Between two
pauses it is alone: others run only while it pauses. `within` cuts a process off after a span, and
`together` runs two side by side.
-/

namespace OnionTunnel

/-- What happens in a state `S` until there is an `α`. A process that is stuck has none. -/
inductive Timed (S α : Type) where
  | done (a : α)
  | read (next : Instant → S → Timed S α)
  | write (s : S) (next : Timed S α)
  | pause (span : Nat) (next : Timed S α)
  | stuck

namespace Timed

variable {S α β γ : Type}

/-- Goes on with what a process ends with. -/
def bind : Timed S α → (α → Timed S β) → Timed S β
  | done a, f => f a
  | read k, f => read fun now s => (k now s).bind f
  | write s p, f => write s (p.bind f)
  | pause t p, f => pause t (p.bind f)
  | stuck, _ => stuck

instance : Monad (Timed S) where
  pure := done
  bind := bind

/-- The state. -/
def look : Timed S S := read fun _ s => done s

/-- Changes the state. -/
def change (f : S → S) : Timed S Unit := read fun _ s => write (f s) (done ())

/-- Lets a span pass. -/
def sleep (d : Duration) : Timed S Unit := pause d.nanoseconds (done ())

/-- Ends without a result unless the process is done before the span is over. -/
def within : Nat → Timed S α → Timed S (Option α)
  | _, done a => done (some a)
  | limit, read k => read fun now s => within limit (k now s)
  | limit, write s p => write s (within limit p)
  | limit, pause t p => if t < limit then pause t (within (limit - t) p) else pause limit (done none)
  | _, stuck => stuck

/-- Runs a process while another one sleeps for a span. The other one goes on with `resume` when
the span is over, and with `finish` if this one is done by then. -/
def meanwhile (resume : Timed S β → Timed S γ) (finish : β → Timed S γ) :
    Nat → Timed S β → Timed S γ
  | t, done b => pause t (finish b)
  | t, read k => read fun now s => meanwhile resume finish t (k now s)
  | t, write s q => write s (meanwhile resume finish t q)
  | t, pause u q =>
    if u < t then pause u (meanwhile resume finish (t - u) q)
    else pause t (resume (pause (u - t) q))
  | _, stuck => stuck

/-- Runs two processes side by side. The first one begins, and goes on first if both can. -/
def together : Timed S α → Timed S β → Timed S (α × β)
  | done a, q => q.bind fun b => done (a, b)
  | read k, q => read fun now s => together (k now s) q
  | write s p, q => write s (together p q)
  | pause t p, q => meanwhile (fun q => together p q) (fun b => p.bind fun a => done (a, b)) t q
  | stuck, _ => stuck

/-- What a process ends with, and the clock and the state then. -/
def run : Timed S α → Instant → S → Option α × Instant × S
  | done a, now, s => (some a, now, s)
  | read k, now, s => run (k now s) now s
  | write s p, now, _ => run p now s
  | pause t p, now, s => run p (now + t) s
  | stuck, now, s => (none, now, s)

/-- Going on with what a process ends with is that process. -/
theorem bind_done (p : Timed S α) : p.bind done = p := by
  induction p with
  | done a => rfl
  | read k ih => simp only [bind, ih]
  | write s p ih => simp only [bind, ih]
  | pause t p ih => simp only [bind, ih]
  | stuck => rfl

/-- Two continuations follow one after the other. -/
theorem bind_assoc (p : Timed S α) (f : α → Timed S β) (g : β → Timed S γ) :
    (p.bind f).bind g = p.bind fun a => (f a).bind g := by
  induction p with
  | done a => rfl
  | read k ih => simp only [bind, ih]
  | write s p ih => simp only [bind, ih]
  | pause t p ih => simp only [bind, ih]
  | stuck => rfl

end Timed

end OnionTunnel

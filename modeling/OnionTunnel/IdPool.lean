import OnionTunnel.Tape

/-!
# Identifiers

Sessions, links and tunnels are numbered by draws from an endless sequence. A draw that is zero or
in use is thrown away, and after a fixed number of draws the search is given up.
-/

namespace OnionTunnel

/-- Every draw of a search was zero or in use. -/
structure IdExhausted where
  attempts : Nat
  deriving DecidableEq, Repr

/-- The text of a search that was given up. -/
def IdExhausted.message (e : IdExhausted) : String :=
  s!"no unused identifier found after {e.attempts} attempts"

/-- A sequence of draws, how many of them have been made, and how many one search may make. -/
structure IdPool where
  draw : Nat → UInt32
  position : Nat
  attempts : Nat

namespace IdPool

/-- The pool of the draws in a list, and of zeros after them. -/
def ofList (draws : List UInt32) (attempts : Nat) : IdPool where
  draw i := draws.getD i 0
  position := 0
  attempts := attempts

/-- The pool of consecutive numbers from a first one on. -/
def counting (first : UInt32) (attempts : Nat) : IdPool where
  draw i := first + UInt32.ofNat i
  position := 0
  attempts := attempts

/-- The pool of the words on a tape. -/
def random (tape : Tape) (attempts : Nat) : IdPool where
  draw i := UInt32.ofNat (Bytes.toNat ({ tape with position := tape.position + 4 * i }.draw 4).1)
  position := 0
  attempts := attempts

/-- The place of the first fitting draw among the next ones. -/
def search (draw : Nat → UInt32) (inUse : UInt32 → Bool) : Nat → Nat → Option Nat
  | 0, _ => none
  | attempts + 1, position =>
    if draw position ≠ 0 && !inUse (draw position) then some position
    else search draw inUse attempts (position + 1)

/-- An identifier that is neither zero nor in use, and the pool after the draws that it took. -/
def allocate (pool : IdPool) (inUse : UInt32 → Bool) : Except IdExhausted UInt32 × IdPool :=
  match search pool.draw inUse pool.attempts pool.position with
  | some position => (.ok (pool.draw position), { pool with position := position + 1 })
  | none => (.error ⟨pool.attempts⟩, { pool with position := pool.position + pool.attempts })

/-- A text that does not show the draws. -/
def debugText (pool : IdPool) : String :=
  "IdAllocator \x7b max_attempts: " ++ toString pool.attempts ++ ", .. \x7d"

end IdPool

end OnionTunnel

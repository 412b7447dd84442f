import OnionTunnel.Cipher.Sha256

/-!
# Random bytes

Every secret, initial vector and padding byte is drawn from a tape, an endless sequence of bytes
that is read once from left to right. What a program does is a function of its tape; a fresh tape
for each run makes it random.
-/

namespace OnionTunnel

/-- An endless sequence of bytes and how many of them have been drawn. -/
structure Tape where
  byte : Nat → UInt8
  position : Nat

namespace Tape

/-- The next `n` bytes and the tape after them. -/
def draw (t : Tape) (n : Nat) : Bytes × Tape :=
  ((List.range n).map fun i => t.byte (t.position + i), { t with position := t.position + n })

/-- The next `n` bytes, each moved off zero, and the tape after them. -/
def drawNonZero (t : Tape) (n : Nat) : Bytes × Tape :=
  let (b, t) := t.draw n
  (b.map fun x => if x = 0 then 1 else x, t)

/-- A draw has the length that was asked for. -/
@[simp] theorem length_draw (t : Tape) (n : Nat) : (t.draw n).1.length = n := by
  simp [draw]

/-- The tape of hashes of a seed and a counter. -/
def ofSeed (seed : Bytes) : Tape where
  byte i := (sha256 (seed ++ Bytes.ofNat 8 (i / 32))).bytes.getD (i % 32) 0
  position := 0

end Tape

end OnionTunnel

import OnionTunnel.Bytes

/-!
# Reading numbers and fields off a byte string

A reader takes bytes off the front. It ends in one of three ways: with a value and the rest of
the bytes, with an error that its format names, or with `none`, a read of more bytes than are
left. A format that checks lengths before it reads never ends the third way.
-/

namespace OnionTunnel

/-- A computation that takes bytes off the front of a byte string. -/
def Reader (ε α : Type) : Type :=
  Bytes → Option (Except ε (α × Bytes))

namespace Reader

variable {ε α β : Type}

/-- Reads nothing. -/
def pure (a : α) : Reader ε α := fun b => some (.ok (a, b))

/-- Reads with one reader, then with the next. -/
def bind (r : Reader ε α) (f : α → Reader ε β) : Reader ε β := fun b =>
  match r b with
  | none => none
  | some (.error e) => some (.error e)
  | some (.ok (a, rest)) => f a rest

instance : Monad (Reader ε) where
  pure := pure
  bind := bind

/-- Ends with an error of the format. -/
def fail (e : ε) : Reader ε α := fun _ => some (.error e)

/-- The number of bytes left. -/
def remaining : Reader ε Nat := fun b => some (.ok (b.length, b))

/-- The next `n` bytes. -/
def bytes (n : Nat) : Reader ε Bytes := fun b =>
  let front := b.take n
  if front.length = n then some (.ok (front, b.drop n)) else none

/-- All bytes that are left. -/
def rest : Reader ε Bytes := fun b => some (.ok (b, []))

/-- The number that the next `width` bytes spell. -/
def number (width : Nat) : Reader ε Nat := do
  return Bytes.toNat (← bytes width)

/-- The next byte. -/
def byte : Reader ε Nat := number 1

/-- The next two bytes as a word. -/
def word16 : Reader ε UInt16 := do
  return UInt16.ofNat (← number 2)

/-- The next four bytes as a word. -/
def word32 : Reader ε UInt32 := do
  return UInt32.ofNat (← number 4)

/-- Reads one word per element. -/
def words32 : Nat → Reader ε (List UInt32)
  | 0 => return []
  | n + 1 => do
    let w ← word32
    return w :: (← words32 n)

end Reader

end OnionTunnel

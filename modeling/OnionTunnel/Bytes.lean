/-!
# Byte strings

Every frame, key and blob is a list of bytes, and every number in them is written with its most
significant byte first. `ofNat` writes a number in a fixed width and `toNat` reads any width back.
-/

namespace OnionTunnel

/-- A byte string. -/
abbrev Bytes := List UInt8

namespace Bytes

/-- The number a byte string spells, most significant byte first. -/
def toNat (b : Bytes) : Nat :=
  b.foldl (fun n x => n * 256 + x.toNat) 0

/-- The last `width` base-256 digits of a number, most significant first. -/
def ofNat : Nat → Nat → Bytes
  | 0, _ => []
  | width + 1, n => UInt8.ofNat (n / Nat.pow 256 width) :: ofNat width n

/-- A number in a fixed width has that width. -/
@[simp] theorem length_ofNat (width n : Nat) : (ofNat width n).length = width := by
  induction width with
  | zero => rfl
  | succ width ih => simp [ofNat, ih]

/-- The bits a number needs; none for zero. -/
def bitLength (n : Nat) : Nat :=
  if n = 0 then 0 else n.log2 + 1

/-- The bytes a number needs; none for zero. -/
def byteLength (n : Nat) : Nat :=
  (bitLength n + 7) / 8

/-- The shortest spelling of a number; zero takes one byte. -/
def ofNatShortest (n : Nat) : Bytes :=
  ofNat (max 1 (byteLength n)) n

/-- The bytewise exclusive or, as long as the shorter of the two. -/
def xor (a b : Bytes) : Bytes :=
  List.zipWith (· ^^^ ·) a b

/-- What follows a beginning. -/
def afterPrefix? (start b : Bytes) : Option Bytes :=
  if start.isPrefixOf b then some (b.drop start.length) else none

/-- What comes before an end. -/
def beforeSuffix? (stop b : Bytes) : Option Bytes :=
  if stop.isSuffixOf b then some (b.take (b.length - stop.length)) else none

/-- Whether a byte string stands somewhere in another. -/
def contains (part : Bytes) : Bytes → Bool
  | [] => part.isEmpty
  | x :: b => part.isPrefixOf (x :: b) || contains part b

/-- The bytes that spell a text in UTF-8. -/
def ofText (s : String) : Bytes :=
  s.toUTF8.data.toList

/-- The text that bytes spell in UTF-8, if they spell one. -/
def toText? (b : Bytes) : Option String :=
  String.fromUTF8? (ByteArray.mk b.toArray)

end Bytes

end OnionTunnel

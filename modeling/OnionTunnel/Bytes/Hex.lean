import OnionTunnel.Bytes

/-!
# Hexadecimal text

A byte is written as two lower-case digits. Reading accepts either case, and reports the first
fault in a fixed order: an odd number of bytes in the text, then the first byte that is no digit.
-/

namespace OnionTunnel

/-- Why a text is not hexadecimal. -/
inductive HexFault where
  | oddLength
  | badDigit (byte : UInt8) (position : Nat)
  deriving DecidableEq, Repr

namespace Hex

/-- The digit for a value below sixteen. -/
def digit (n : Nat) : Char :=
  "0123456789abcdef".toList.getD n '0'

/-- The two digits of a byte. -/
def ofByte (b : UInt8) : List Char :=
  [digit (b.toNat / 16), digit (b.toNat % 16)]

/-- The hexadecimal text of a byte string. -/
def encode (b : Bytes) : String :=
  String.ofList (b.flatMap ofByte)

/-- The value of an ASCII digit of either case. -/
def value? (b : UInt8) : Option UInt8 :=
  if 48 ≤ b ∧ b ≤ 57 then some (b - 48)
  else if 97 ≤ b ∧ b ≤ 102 then some (b - 87)
  else if 65 ≤ b ∧ b ≤ 70 then some (b - 55)
  else none

/-- The value of the digit at a position, or the fault it is. -/
def valueAt (b : UInt8) (position : Nat) : Except HexFault UInt8 :=
  match value? b with
  | some v => .ok v
  | none => .error (.badDigit b position)

/-- Reads pairs of digits; the text's length is known to be even. -/
def decodePairs (position : Nat) : Bytes → Except HexFault Bytes
  | hi :: lo :: rest => do
    let h ← valueAt hi position
    let l ← valueAt lo (position + 1)
    let more ← decodePairs (position + 2) rest
    return (h * 16 + l) :: more
  | _ => .ok []

/-- Reads digit bytes, checking their number first. -/
def decodeBytes (b : Bytes) : Except HexFault Bytes :=
  if b.length % 2 = 1 then .error .oddLength else decodePairs 0 b

/-- Reads a hexadecimal text. -/
def decode (s : String) : Except HexFault Bytes :=
  decodeBytes (Bytes.ofText s)

end Hex

/-- The quoted form of a byte shown as the Latin-1 character of its number: control and format
characters are written by number, and the quote and the backslash are escaped. -/
def quotedLatin (b : UInt8) : String :=
  let n := b.toNat
  if n = 0 then "'\\0'"
  else if n = 9 then "'\\t'"
  else if n = 10 then "'\\n'"
  else if n = 13 then "'\\r'"
  else if n = 39 then "'\\''"
  else if n = 92 then "'\\\\'"
  else if n < 32 ∨ (127 ≤ n ∧ n ≤ 160) ∨ n = 173 then
    "'\\u\x7b" ++ String.ofList (Nat.toDigits 16 n) ++ "\x7d'"
  else "'" ++ String.ofList [Char.ofNat n] ++ "'"

/-- The text of a fault in a hexadecimal text. -/
def HexFault.message : HexFault → String
  | .oddLength => "Odd number of digits"
  | .badDigit b position => s!"Invalid character {quotedLatin b} at position {position}"

end OnionTunnel

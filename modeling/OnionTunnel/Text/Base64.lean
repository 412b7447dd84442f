import OnionTunnel.Bytes

/-!
# Base64

Three bytes are spelled in four letters, a last group of one or two bytes with padding. Reading
accepts exactly what writing produces: padding stands at the very end only, and the bits it leaves
over are zero.
-/

namespace OnionTunnel.Base64

/-- The letter for a value below sixty-four. -/
def letter (n : Nat) : UInt8 :=
  if n < 26 then UInt8.ofNat (65 + n)
  else if n < 52 then UInt8.ofNat (71 + n)
  else if n < 62 then UInt8.ofNat (n - 4)
  else if n = 62 then 43
  else 47

/-- The value of a letter. -/
def value? (c : UInt8) : Option Nat :=
  if 65 ≤ c ∧ c ≤ 90 then some (c.toNat - 65)
  else if 97 ≤ c ∧ c ≤ 122 then some (c.toNat - 71)
  else if 48 ≤ c ∧ c ≤ 57 then some (c.toNat + 4)
  else if c = 43 then some 62
  else if c = 47 then some 63
  else none

/-- The letter that fills up a last group. -/
def padding : UInt8 := 61

/-- The four letters of three bytes. -/
def group (a b c : UInt8) : Bytes :=
  let n := Bytes.toNat [a, b, c]
  [letter (n / 262144), letter (n / 4096 % 64), letter (n / 64 % 64), letter (n % 64)]

/-- The letters of a byte string. -/
def encode : Bytes → Bytes
  | a :: b :: c :: rest => group a b c ++ encode rest
  | [a, b] => (group a b 0).take 3 ++ [padding]
  | [a] => (group a 0 0).take 2 ++ [padding, padding]
  | [] => []

/-- The three bytes of four letters. -/
def ungroup (a b c d : UInt8) : Option Bytes := do
  let n := (((← value? a) * 64 + (← value? b)) * 64 + (← value? c)) * 64 + (← value? d)
  return Bytes.ofNat 3 n

/-- The bytes of a last group of four letters, of which the final one or two may be padding. -/
def lastGroup (a b c d : UInt8) : Option Bytes := do
  let bytes ←
    if d ≠ padding then ungroup a b c d
    else if c ≠ padding then (ungroup a b c 65).map (·.take 2)
    else (ungroup a b 65 65).map (·.take 1)
  if encode bytes = [a, b, c, d] then some bytes else none

/-- The bytes that letters spell. -/
def decode? : Bytes → Option Bytes
  | [] => some []
  | [a, b, c, d] => lastGroup a b c d
  | a :: b :: c :: d :: rest => do
    let front ← ungroup a b c d
    return front ++ (← decode? rest)
  | _ => none

end OnionTunnel.Base64

import OnionTunnel.Toml
import OnionTunnel.Toml.Quoted

/-!
# Numbers and dates of a settings file

Digits may be parted by single underscores. A whole number has 64 bits; a number with a fraction
or an exponent is refused if it rounds to positive infinity. A date or a time has to exist.
-/

namespace OnionTunnel.Toml

/-- Whether a character is a decimal digit. -/
def isDigit (c : Char) : Bool := '0' ≤ c && c ≤ '9'

/-- Digits of one kind, parted by single underscores. -/
def parted (p : Char → Bool) : Parse (List Char) := do
  let first ← Parse.satisfy p
  let more ← Parse.many (Parse.satisfy p <|> (do Parse.char '_'; Parse.satisfy p))
  return first :: more

/-- A sign; `true` is a minus. -/
def sign : Parse Bool :=
  (do Parse.char '-'; return true) <|> (do Parse.char '+'; return false) <|> pure false

/-- Decimal digits without a leading zero. -/
def decimal : Parse (List Char) := do
  match ← Parse.peek with
  | some '0' =>
    Parse.char '0'
    return ['0']
  | _ => parted isDigit

/-- A whole number in a base that two characters announce. -/
def based (mark : Char) (base : Nat) : Parse Int := do
  Parse.literal ['0', mark]
  let digits ← parted fun c =>
    match hexValue? c with
    | some v => v < base
    | none => false
  return (ofDigits base digits : Nat)

/-- A whole number. -/
def integer : Parse Int := do
  let n ← based 'x' 16 <|> based 'o' 8 <|> based 'b' 2 <|> (do
    let minus ← sign
    let n := (ofDigits 10 (← decimal) : Nat)
    return if minus then -(n : Int) else n)
  if -0x8000000000000000 ≤ n ∧ n < 0x8000000000000000 then return n else failure

/-- Whether the number that digits spell, times `10 ^ exponent`, rounds to a finite number of double
precision. Exponents so large or small that the digits make no difference are not raised to. -/
def isFinite (digits : List Char) (exponent : Int) : Bool :=
  let digits := digits.dropWhile (· = '0')
  let limit := (1 <<< 1024) - (1 <<< 970)
  let width : Int := digits.length
  if digits.isEmpty then true
  else if 400 < width + exponent then false
  else if width + exponent < 0 then true
  else if 0 ≤ exponent then ofDigits 10 digits * Nat.pow 10 exponent.toNat < limit
  else ofDigits 10 digits < limit * Nat.pow 10 (-exponent).toNat

/-- An exponent. -/
def exponent : Parse Int := do
  let _ ← Parse.satisfy fun c => c = 'e' || c = 'E'
  let minus ← sign
  let n := (ofDigits 10 (← parted isDigit) : Nat)
  return if minus then -(n : Int) else n

/-- The digits of a fraction. -/
def fraction : Parse (List Char) := do
  Parse.char '.'
  parted isDigit

/-- A number with a fraction or an exponent. -/
def float : Parse Unit := do
  let minus ← sign
  let whole ← decimal
  let (decimals, e) ←
    (do return ([], ← exponent)) <|>
      (do
        let decimals ← fraction
        return (decimals, (← optional exponent).getD 0))
  if minus || isFinite (whole ++ decimals) (e - decimals.length) then return ()
  else failure

/-- Infinity or no number, with a sign or without. -/
def specialFloat : Parse Unit := do
  let _ ← sign
  Parse.literal ['i', 'n', 'f'] <|> Parse.literal ['n', 'a', 'n']

/-- A number of so many digits between two bounds. -/
def bounded (digits low high : Nat) : Parse Nat := do
  let n := ofDigits 10 (← Parse.count isDigit digits)
  if low ≤ n ∧ n ≤ high then return n else failure

/-- The days of a month. -/
def daysIn (year month : Nat) : Nat :=
  if month = 2 then
    if year % 4 = 0 ∧ (year % 100 ≠ 0 ∨ year % 400 = 0) then 29 else 28
  else if month = 4 ∨ month = 6 ∨ month = 9 ∨ month = 11 then 30
  else 31

/-- A date that exists. -/
def date : Parse Unit := do
  let year ← bounded 4 0 9999
  Parse.char '-'
  let month ← bounded 2 1 12
  Parse.char '-'
  let _ ← bounded 2 1 (daysIn year month)

/-- A time of day, with a leap second at most. -/
def time : Parse Unit := do
  let _ ← bounded 2 0 23
  Parse.char ':'
  let _ ← bounded 2 0 59
  Parse.char ':'
  let _ ← bounded 2 0 60
  let _ ← optional do
    Parse.char '.'
    let _ ← Parse.takeWhile1 isDigit

/-- The distance of a time from the universal one. -/
def offset : Parse Unit :=
  (do let _ ← Parse.satisfy fun c => c = 'Z' || c = 'z') <|> do
    let _ ← Parse.satisfy fun c => c = '+' || c = '-'
    let _ ← bounded 2 0 23
    Parse.char ':'
    let _ ← bounded 2 0 59

/-- A date, a time, or both. -/
def dateTime : Parse Unit :=
  (do
    date
    let _ ← optional do
      let _ ← Parse.satisfy fun c => c = 'T' || c = 't' || c = ' '
      time
      let _ ← optional offset) <|> time

/-- A value that holds no other values. -/
def scalar : Parse Value :=
  (do return .string (String.ofList (← quoted))) <|>
    (do dateTime; return .dateTime) <|>
    (do float <|> specialFloat; return .float) <|>
    (do return .integer (← integer)) <|>
    (do Parse.literal ['t', 'r', 'u', 'e']; return .boolean true) <|>
    (do Parse.literal ['f', 'a', 'l', 's', 'e']; return .boolean false)

end OnionTunnel.Toml

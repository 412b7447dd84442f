import OnionTunnel.Address.Text

/-!
# Values on the command line

Every value has a kind, which says what texts may spell it. A text is read from the left, and the
first thing that is wrong with it is what is reported.
-/

namespace OnionTunnel.CommandLine

/-- A value on the command line. -/
inductive Value where
  | text (s : String)
  | count (n : Nat)
  | word (n : UInt32)
  | address (a : Address)

namespace Value

/-- The text of a value that is one. -/
def text? : Value → Option String
  | text s => some s
  | _ => none

/-- The number of a value that counts something. -/
def count? : Value → Option Nat
  | count n => some n
  | _ => none

/-- The number of a value that is an identifier. -/
def word? : Value → Option UInt32
  | word n => some n
  | _ => none

/-- The address of a value that is one. -/
def address? : Value → Option Address
  | address a => some a
  | _ => none

end Value

/-- What is wrong with the text of a value. -/
inductive ValueFault where
  /-- There is no text where there has to be some. -/
  | empty
  | noDigits
  | notDigit
  | tooLarge
  | tooSmall
  | outOfRange (n : Int)
  | notAddress
  deriving DecidableEq, Repr

/-- The largest identifier. -/
def maxWord : Int := 0xffffffff

/-- The text of what is wrong with the text of a value. -/
def ValueFault.message : ValueFault → String
  | empty => "no text"
  | noDigits => "cannot parse integer from empty string"
  | notDigit => "invalid digit found in string"
  | tooLarge => "number too large to fit in target type"
  | tooSmall => "number too small to fit in target type"
  | outOfRange n => s!"{n} is not in 0..={maxWord}"
  | notAddress => "invalid socket address syntax"

/-- The number that digits spell after others, if it never exceeds a bound. -/
def readDigits (bound : Nat) (tooFar : ValueFault) (before : Nat) :
    List Char → Except ValueFault Nat
  | [] => .ok before
  | c :: cs =>
    let n := 10 * before + (c.toNat - '0'.toNat)
    if !c.isDigit then .error .notDigit
    else if bound < n then .error tooFar
    else readDigits bound tooFar n cs

/-- The number that digits spell after a sign or without one, between zero and a bound or, after a
minus sign, between zero and another. Without a bound for it, a minus sign is not understood. -/
def readNumber (bound : Nat) (below? : Option Nat) : List Char → Except ValueFault Int
  | [] => .error .noDigits
  | ['+'] => .error .notDigit
  | ['-'] => .error .notDigit
  | '+' :: cs => (readDigits bound .tooLarge 0 cs).map Int.ofNat
  | '-' :: cs =>
    match below? with
    | some below => (readDigits below .tooSmall 0 cs).map fun n => -Int.ofNat n
    | none => .error .notDigit
  | cs => (readDigits bound .tooLarge 0 cs).map Int.ofNat

/-- What a value has to be. -/
inductive ValueKind where
  | text
  /-- A path has at least one letter. -/
  | path
  /-- A number of things, below `2 ^ 64`. -/
  | count
  /-- An identifier, read as a whole number of 64 bits and then held against its range. -/
  | word
  | address

/-- The value of a kind that a text spells. -/
def ValueKind.read : ValueKind → String → Except ValueFault Value
  | text, s => .ok (.text s)
  | path, s => if s.isEmpty then .error .empty else .ok (.text s)
  | count, s => (readNumber 0xffffffffffffffff none s.toList).map fun n => .count n.toNat
  | word, s => do
    let n ← readNumber 0x7fffffffffffffff (some 0x8000000000000000) s.toList
    if 0 ≤ n ∧ n ≤ maxWord then return .word (UInt32.ofNat n.toNat) else throw (.outOfRange n)
  | address, s =>
    match Address.parse? s with
    | some a => .ok (.address a)
    | none => .error .notAddress

end OnionTunnel.CommandLine

/-!
# Parsers over characters

A parser takes characters off the front of a text or fails, and what fails takes nothing: the next
alternative starts where the first one did.
-/

namespace OnionTunnel

/-- A computation that takes characters off the front of a text, or fails. -/
abbrev Parse := StateT (List Char) Option

namespace Parse

variable {α β : Type}

/-- The next character, if it passes a test. -/
def satisfy (p : Char → Bool) : Parse Char
  | c :: rest => if p c then some (c, rest) else none
  | [] => none

/-- A character. -/
def char (c : Char) : Parse Unit := do
  let _ ← satisfy (· = c)

/-- A row of characters. -/
def literal : List Char → Parse Unit
  | [] => pure ()
  | c :: rest => do
    char c
    literal rest

/-- The next character, which is not taken. -/
def peek : Parse (Option Char) := fun s => some (s.head?, s)

/-- Succeeds where a parser would, and takes nothing. -/
def ahead (p : Parse α) : Parse Unit := fun s => (p s).map fun _ => ((), s)

/-- The end of the text. -/
def eof : Parse Unit
  | [] => some ((), [])
  | _ :: _ => none

/-- All characters up to the first that fails a test. -/
def takeWhile (p : Char → Bool) : Parse (List Char) := fun s =>
  some (s.takeWhile p, s.dropWhile p)

/-- At least one character, up to the first that fails a test. -/
def takeWhile1 (p : Char → Bool) : Parse (List Char) := do
  let c ← satisfy p
  return c :: (← takeWhile p)

/-- A number of characters that all pass a test. -/
def count (p : Char → Bool) : Nat → Parse (List Char)
  | 0 => pure []
  | n + 1 => do
    let c ← satisfy p
    return c :: (← count p n)

/-- A parser again and again, until it fails, at most once for each character of a text. What it has
found before stands in reverse. -/
def manyFrom (p : Parse α) : List Char → List α → Parse (List α)
  | [], found, s => some (found.reverse, s)
  | _ :: bound, found, s =>
    match p s with
    | none => some (found.reverse, s)
    | some (a, rest) => manyFrom p bound (a :: found) rest

/-- A parser as often as it succeeds. It has to take a character each time, so that the length of the
text bounds how often that is. -/
def many (p : Parse α) : Parse (List α) := fun s => manyFrom p s [] s

/-- One or more of a parser, with a separator between any two. -/
def sepBy1 (p : Parse α) (separator : Parse β) : Parse (List α) := do
  let a ← p
  return a :: (← many (do let _ ← separator; p))

/-- Any number of a parser, with a separator between any two. -/
def sepBy (p : Parse α) (separator : Parse β) : Parse (List α) :=
  sepBy1 p separator <|> pure []

/-- The value of a parser that takes the whole text. -/
def run? (p : Parse α) (s : List Char) : Option α :=
  match p s with
  | some (a, []) => some a
  | _ => none

end Parse

end OnionTunnel

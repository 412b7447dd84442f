import OnionTunnel.Toml.Layout

/-!
# Quoted text of a settings file

Text between double quotes may hold escapes; text between single quotes may not. Three quotes
open text that runs over lines: a line end right after them is dropped, and every other one reads
as a line feed.
-/

namespace OnionTunnel.Toml

/-- Whether a character stands for itself between double quotes. -/
def isPlain (c : Char) : Bool := isCommentChar c && c ≠ '"' && c ≠ '\\'

/-- Whether a character may stand between single quotes. -/
def isVerbatim (c : Char) : Bool := isCommentChar c && c ≠ '\''

/-- The value of a hexadecimal digit. -/
def hexValue? (c : Char) : Option Nat :=
  if '0' ≤ c ∧ c ≤ '9' then some (c.toNat - 48)
  else if 'a' ≤ c ∧ c ≤ 'f' then some (c.toNat - 87)
  else if 'A' ≤ c ∧ c ≤ 'F' then some (c.toNat - 55)
  else none

/-- The number that digits spell in a base; digits beyond the base count as well. -/
def ofDigits (base : Nat) (digits : List Char) : Nat :=
  digits.foldl (fun n c => n * base + (hexValue? c).getD 0) 0

/-- The character with the number that the next hexadecimal digits spell. -/
def numbered (digits : Nat) : Parse Char := do
  let n := ofDigits 16 (← Parse.count (fun c => (hexValue? c).isSome) digits)
  if n.isValidChar then return Char.ofNat n else failure

/-- A character written by an escape. -/
def escaped : Parse Char := do
  Parse.char '\\'
  match ← Parse.satisfy fun _ => true with
  | 'b' => return '\x08'
  | 't' => return '\t'
  | 'n' => return '\n'
  | 'f' => return '\x0c'
  | 'r' => return '\r'
  | '"' => return '"'
  | '\\' => return '\\'
  | 'u' => numbered 4
  | 'U' => numbered 8
  | _ => failure

/-- A backslash at the end of a line, the line end, and the blanks and line ends after it. -/
def continuation : Parse Unit := do
  Parse.char '\\'
  blanks
  newline
  let _ ← Parse.many ((do let _ ← Parse.takeWhile1 isBlank) <|> newline)

/-- A line end, read as a line feed. -/
def lineFeed : Parse (List Char) := do
  newline
  return ['\n']

/-- A piece of text between double quotes. -/
def piece : Parse (List Char) :=
  Parse.takeWhile1 isPlain <|> (do return [← escaped])

/-- A piece of text between double quotes over lines. -/
def longPiece : Parse (List Char) :=
  Parse.takeWhile1 isPlain <|> (do continuation; return []) <|> (do return [← escaped]) <|> lineFeed

/-- A piece of text between single quotes over lines. -/
def longVerbatim : Parse (List Char) :=
  Parse.takeWhile1 isVerbatim <|> lineFeed

/-- One or two quotes that do not end the text, as a parser for what follows tells. -/
def quotes (quote : Char) (follows : Parse Unit) : Parse (List Char) :=
  (do Parse.literal [quote, quote]; Parse.ahead follows; return [quote, quote]) <|>
    (do Parse.char quote; Parse.ahead follows; return [quote])

/-- Text over lines between three quotes, of which up to two more may stand before the last
three. -/
def long (quote : Char) (content : Parse (List Char)) : Parse (List Char) := do
  let delimiter := Parse.literal [quote, quote, quote]
  delimiter
  let _ ← optional newline
  let front ← Parse.many content
  let middle ← Parse.many do
    let q ← quotes quote (do let _ ← Parse.satisfy (· ≠ quote))
    return q ++ (← content) ++ (← Parse.many content).flatten
  let back := (← optional (quotes quote delimiter)).getD []
  delimiter
  return front.flatten ++ middle.flatten ++ back

/-- Text on one line between double quotes. -/
def doubleQuoted : Parse (List Char) := do
  Parse.char '"'
  let pieces ← Parse.many piece
  Parse.char '"'
  return pieces.flatten

/-- Text on one line between single quotes. -/
def singleQuoted : Parse (List Char) := do
  Parse.char '\''
  let text ← Parse.takeWhile isVerbatim
  Parse.char '\''
  return text

/-- Quoted text of any kind. -/
def quoted : Parse (List Char) :=
  long '"' longPiece <|> doubleQuoted <|> long '\'' longVerbatim <|> singleQuoted

end OnionTunnel.Toml

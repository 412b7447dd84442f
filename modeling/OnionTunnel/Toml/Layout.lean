import OnionTunnel.Text.Parse

/-!
# Blanks, comments and line ends of a settings file
-/

namespace OnionTunnel.Toml

/-- A space or a tab. -/
def isBlank (c : Char) : Bool := c = ' ' || c = '\t'

/-- Whether a character is beyond ASCII. -/
def isWide (c : Char) : Bool := 0x80 ≤ c.toNat

/-- Whether a character may stand in a comment: all but control characters other than the tab. -/
def isCommentChar (c : Char) : Bool :=
  c = '\t' || (0x20 ≤ c.toNat && c.toNat ≤ 0x7e) || isWide c

/-- Blanks. -/
def blanks : Parse Unit := do
  let _ ← Parse.takeWhile isBlank

/-- A line feed, alone or after a carriage return. -/
def newline : Parse Unit :=
  Parse.char '\n' <|> Parse.literal ['\r', '\n']

/-- A comment up to the end of its line. -/
def comment : Parse Unit := do
  Parse.char '#'
  let _ ← Parse.takeWhile isCommentChar

/-- What may follow a statement on its line, and the end of the line or of the text. -/
def lineRest : Parse Unit := do
  blanks
  let _ ← optional comment
  newline <|> Parse.eof

/-- Blanks, line ends, and comments that a line end follows. -/
def layout : Parse Unit := do
  blanks
  let _ ← Parse.many do
    let _ ← optional comment
    newline
    blanks

end OnionTunnel.Toml

import OnionTunnel.Toml.Scalar
import OnionTunnel.Toml.Tree

/-!
# Statements of a settings file

A settings file is a list of statements, one a line: a value under a path of keys, the header of a
table, or the header of the next table in a row of tables.
-/

namespace OnionTunnel.Toml

/-- A line of a settings file. -/
inductive Statement where
  | assign (path : Path) (value : Value)
  | table (path : Path)
  | nextTable (path : Path)

/-- The parts that a path of keys may not reach, and the depth that values may not reach. -/
def depthLimit : Nat := 80

/-- Whether a character may stand in a key without quotes. -/
def isKeyChar (c : Char) : Bool :=
  ('a' ≤ c && c ≤ 'z') || ('A' ≤ c && c ≤ 'Z') || isDigit c || c = '-' || c = '_'

/-- One key, with blanks around it. -/
def key : Parse String := do
  blanks
  let text ← doubleQuoted <|> singleQuoted <|> Parse.takeWhile1 isKeyChar
  blanks
  return String.ofList text

/-- Keys with points between them. -/
def path : Parse Path := do
  let first ← key
  let more ← Parse.many do
    Parse.char '.'
    key
  if more.length + 1 < depthLimit then return ⟨first, more⟩ else failure

/-- The table between braces that pairs of paths and values make. -/
def braces (value : Parse Value) : Parse Value := do
  Parse.char '{'
  let pair : Parse (Path × Value) := do
    let p ← path
    Parse.char '='
    blanks
    let v ← value
    blanks
    return (p, v)
  let pairs ← Parse.sepBy pair (Parse.char ',')
  blanks
  Parse.char '}'
  match Tree.ofPairs? pairs with
  | some entries => return .table (Tree.values entries)
  | none => failure

/-- The list between brackets; a comma may follow the last value. -/
def brackets (value : Parse Value) : Parse Value := do
  Parse.char '['
  let item : Parse Value := do
    layout
    let v ← value
    layout
    return v
  let items ← Parse.sepBy item (Parse.char ',')
  let _ ← optional (if items.isEmpty then failure else Parse.char ',')
  layout
  Parse.char ']'
  return .array items

/-- A value that may hold values to a depth. -/
def value : Nat → Parse Value
  | 0 => scalar
  | depth + 1 => brackets (value depth) <|> braces (value depth) <|> scalar

/-- A statement and the rest of its line. -/
def statement : Parse Statement := do
  let s ←
    (do
      Parse.literal ['[', '[']
      let p ← path
      Parse.literal [']', ']']
      return Statement.nextTable p) <|>
    (do
      Parse.char '['
      let p ← path
      Parse.char ']'
      return Statement.table p) <|>
    (do
      let p ← path
      Parse.char '='
      blanks
      return Statement.assign p (← value (depthLimit - 1)))
  lineRest
  return s

/-- A line without a statement: empty, or a comment. -/
def emptyLine : Parse Unit :=
  newline <|> (do comment; newline <|> Parse.eof)

/-- All lines of a settings file. A byte order mark may stand in front. -/
def statements : Parse (List Statement) := do
  let _ ← optional (Parse.char '\uFEFF')
  blanks
  let lines ← Parse.many do
    let line ← (do emptyLine; return none) <|> (do return some (← statement))
    blanks
    return line
  return lines.filterMap id

end OnionTunnel.Toml

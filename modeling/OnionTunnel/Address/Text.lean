import OnionTunnel.Address

/-!
# The text of an address

`1.2.3.4:5`, `[::1]:80` and `[fe80::1%3]:9000`. Reading takes a number without leading zeros for
each part of a quadruple, up to four digits for each group of a 128-bit host, one `::` and one
trailing quadruple. Printing shortens the longest run of zero groups, the first of equal runs, if
it has at least two groups, and shows a mapped host dotted.

## Implementation notes

A reading step takes characters off the front of a list. A step that fails takes nothing, so an
alternative starts where the failed one did.
-/

namespace OnionTunnel.Address

/-- A step that reads a value off the front of a text, or fails. -/
abbrev Step (α : Type) := List Char → Option (α × List Char)

/-- The value of a digit in a base up to sixteen. -/
def digitValue? (base : Nat) (c : Char) : Option Nat :=
  let v? := if '0' ≤ c ∧ c ≤ '9' then some (c.toNat - 48)
    else if 'a' ≤ c ∧ c ≤ 'f' then some (c.toNat - 87)
    else if 'A' ≤ c ∧ c ≤ 'F' then some (c.toNat - 55)
    else none
  v?.filter (· < base)

/-- The digits in front of a text and what follows them. -/
def digits (base : Nat) : List Char → List Nat × List Char
  | [] => ([], [])
  | c :: rest =>
    match digitValue? base c with
    | none => ([], c :: rest)
    | some v =>
      let (more, after) := digits base rest
      (v :: more, after)

/-- A number of at least one digit below `bound`, of at most `most` digits if a limit is given. -/
def number (base bound : Nat) (most : Option Nat) (leadingZeros : Bool) : Step Nat := fun cs =>
  let (ds, after) := digits base cs
  let n := ds.foldl (fun n d => n * base + d) 0
  if ds = [] then none
  else if most.any (· < ds.length) then none
  else if !leadingZeros && ds.head? = some 0 && 1 < ds.length then none
  else if bound ≤ n then none
  else some (n, after)

/-- One given character. -/
def sign (c : Char) : Step Unit
  | d :: rest => if d = c then some ((), rest) else none
  | [] => none

/-- The next part of a list of parts: every part but the first follows a separator. -/
def part {α : Type} (separator : Char) (isFirst : Bool) (step : Step α) : Step α := fun cs =>
  if isFirst then step cs
  else do
    let (_, cs) ← sign separator cs
    step cs

/-- A dotted quadruple, as its 32-bit number. -/
def quadruple : Step Nat := fun cs => do
  let octet : Step Nat := number 10 256 (some 3) false
  let (a, cs) ← octet cs
  let (b, cs) ← part '.' false octet cs
  let (c, cs) ← part '.' false octet cs
  let (d, cs) ← part '.' false octet cs
  return (((a * 256 + b) * 256 + c) * 256 + d, cs)

/-- Up to `room` groups separated by colons, and whether a quadruple ended them. A quadruple
stands for two groups, so it needs room for two. -/
def groups : (room : Nat) → (isFirst : Bool) → List Char → List Nat × Bool × List Char
  | 0, _, cs => ([], false, cs)
  | room + 1, isFirst, cs =>
    let dotted := if 0 < room then part ':' isFirst quadruple cs else none
    match dotted with
    | some (n, after) => ([n / 65536, n % 65536], true, after)
    | none =>
      match part ':' isFirst (number 16 65536 (some 4) true) cs with
      | none => ([], false, cs)
      | some (g, after) =>
        let (more, ended, after) := groups room false after
        (g :: more, ended, after)

/-- The number of eight groups. -/
def ofGroups (gs : List Nat) : Nat :=
  gs.foldl (fun n g => n * 65536 + g) 0

/-- A 128-bit host: eight groups, or two shorter lists of groups around `::`. -/
def longHost : Step Nat := fun cs =>
  let (front, dotted, cs) := groups 8 true cs
  if front.length = 8 then some (ofGroups front, cs)
  else if dotted then none
  else do
    let (_, cs) ← sign ':' cs
    let (_, cs) ← sign ':' cs
    let (back, _, cs) := groups (8 - (front.length + 1)) true cs
    let zeros := List.replicate (8 - front.length - back.length) 0
    return (ofGroups (front ++ zeros ++ back), cs)

/-- A colon and a port. -/
def portPart : Step UInt16 := fun cs => do
  let (n, cs) ← part ':' false (number 10 65536 none true) cs
  return (UInt16.ofNat n, cs)

/-- An address with a dotted host. -/
def shortForm : Step Address := fun cs => do
  let (host, cs) ← quadruple cs
  let (port, cs) ← portPart cs
  return (.v4 (BitVec.ofNat 32 host) port, cs)

/-- An address with a bracketed 128-bit host and an optional scope. -/
def longForm : Step Address := fun cs => do
  let (_, cs) ← sign '[' cs
  let (host, cs) ← longHost cs
  let (scope, cs) := (part '%' false (number 10 shortHosts none true) cs).getD (0, cs)
  let (_, cs) ← sign ']' cs
  let (port, cs) ← portPart cs
  return (.v6 (BitVec.ofNat 128 host) port 0 (UInt32.ofNat scope), cs)

/-- The value of a step that reads a whole text. -/
def whole {α : Type} (step : Step α) (cs : List Char) : Option α :=
  match step cs with
  | some (a, []) => some a
  | _ => none

/-- Reads the text of an address. -/
def parse? (s : String) : Option Address :=
  whole (fun cs => (shortForm cs).or (longForm cs)) s.toList

/-- The dotted text of a 32-bit host. -/
def dotted (host : Nat) : String :=
  String.intercalate "." ((Bytes.ofNat 4 host).map fun b => toString b.toNat)

/-- The eight groups of a 128-bit host. -/
def groupsOf (host : Nat) : List Nat :=
  (List.range 8).map fun i => host >>> (16 * (7 - i)) % 65536

/-- The start and the length of the zero run that begins at the head, then of the longest run of
zeros, the first among equals. -/
def longestZeros (i : Nat) : List Nat → (current best : Nat × Nat) → Nat × Nat
  | [], _, best => best
  | g :: gs, current, best =>
    if g = 0 then
      let current := if current.2 = 0 then (i, 1) else (current.1, current.2 + 1)
      longestZeros (i + 1) gs current (if best.2 < current.2 then current else best)
    else longestZeros (i + 1) gs (0, 0) best

/-- Groups in hexadecimal, joined by colons. -/
def groupText (gs : List Nat) : String :=
  String.intercalate ":" (gs.map fun g => String.ofList (Nat.toDigits 16 g))

/-- The text of a 128-bit host. -/
def longText (host : Nat) : String :=
  if host / shortHosts = mappedRange then "::ffff:" ++ dotted host
  else
    let gs := groupsOf host
    let (start, length) := longestZeros 0 gs (0, 0) (0, 0)
    if 1 < length then groupText (gs.take start) ++ "::" ++ groupText (gs.drop (start + length))
    else groupText gs

/-- The text of an address. -/
def text : Address → String
  | v4 host port => dotted host.toNat ++ ":" ++ toString port.toNat
  | v6 host port _ scope =>
    let zone := if scope = 0 then "" else "%" ++ toString scope.toNat
    "[" ++ longText host.toNat ++ zone ++ "]:" ++ toString port.toNat

end OnionTunnel.Address

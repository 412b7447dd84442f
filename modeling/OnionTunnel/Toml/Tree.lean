import OnionTunnel.Toml

/-!
# Tables under construction

A table can be opened by its own header, by the path of another header, or by a dotted key. It
matters how: a header may take up a table that another header's path opened, but no other, and a
dotted key may add to tables that dotted keys or other headers' paths opened, and set values in the
first kind only.
-/

namespace OnionTunnel.Toml

/-- A path of keys; there is at least one. -/
structure Path where
  first : String
  more : List String

/-- The keys of a path. -/
def Path.keys (p : Path) : List String := p.first :: p.more

/-- All keys of a path but the last. -/
def Path.parents (p : Path) : List String := p.keys.dropLast

/-- The last key of a path. -/
def Path.last (p : Path) : String := p.more.getLastD p.first

/-- What opened a table. -/
inductive Origin where
  | header
  | headerPath
  | dottedKey
  deriving DecidableEq

/-- A value, a table, or a row of tables with the newest first. -/
inductive Tree where
  | leaf (value : Value)
  | table (origin : Origin) (entries : List (String × Tree))
  | row (newest : List (String × Tree)) (earlier : List (List (String × Tree)))

namespace Tree

/-- The entries of a table. -/
abbrev Entries := List (String × Tree)

/-- The entries with a tree under a key, in place of an earlier one or after all others. -/
def set (key : String) (t : Tree) : Entries → Entries
  | [] => [(key, t)]
  | e :: rest => if e.1 = key then (key, t) :: rest else e :: set key t rest

/-- Changes the table at the end of a path, opening tables on the way. The change is told what
opened the table. -/
def change (opener : Origin) (f : Origin → Entries → Option Entries) :
    List String → Origin → Entries → Option Entries
  | [], origin, entries => f origin entries
  | key :: path, _, entries =>
    match entries.lookup key with
    | none => do
      return set key (.table opener (← change opener f path opener [])) entries
    | some (.leaf _) => none
    | some (.row newest earlier) => do
      return set key (.row (← change opener f path .header newest) earlier) entries
    | some (.table origin inner) =>
      if opener = .dottedKey ∧ origin = .header then none
      else do return set key (.table origin (← change opener f path origin inner)) entries

/-- Sets a value under a path of keys, the last of which is new. -/
def assign (path : Path) (value : Value) : Entries → Option Entries :=
  let put (origin : Origin) (entries : Entries) : Option Entries :=
    if origin ≠ .dottedKey ∧ path.parents ≠ [] then none
    else if (entries.lookup path.last).isSome then none
    else some (set path.last (.leaf value) entries)
  change .dottedKey put path.parents .header

/-- Opens the table of a header. -/
def openTable (path : Path) : Entries → Option Entries :=
  let put (_ : Origin) (entries : Entries) : Option Entries :=
    match entries.lookup path.last with
    | none => some (set path.last (.table .header []) entries)
    | some (.table .headerPath inner) => some (set path.last (.table .header inner) entries)
    | some _ => none
  change .headerPath put path.parents .header

/-- Opens the next table of a row. -/
def openNext (path : Path) : Entries → Option Entries :=
  let put (_ : Origin) (entries : Entries) : Option Entries :=
    match entries.lookup path.last with
    | none => some (set path.last (.row [] []) entries)
    | some (.row newest earlier) => some (set path.last (.row [] (newest :: earlier)) entries)
    | some _ => none
  change .headerPath put path.parents .header

/-- Sets a value under a path in the table that a header opened. -/
def assignIn (table : List String) (path : Path) (value : Value) : Entries → Option Entries :=
  change .headerPath (fun _ entries => assign path value entries) table .header

/-- The table between braces that pairs make. -/
def ofPairs? (pairs : List (Path × Value)) : Option Entries :=
  pairs.foldlM (fun entries pair => assign pair.1 pair.2 entries) []

mutual

/-- The value that a tree stands for. -/
def toValue : Tree → Value
  | .leaf v => v
  | .table _ entries => .table (values entries)
  | .row newest earlier => .array (rowValues earlier [.table (values newest)])

/-- The values of a table. -/
def values : Entries → List (String × Value)
  | [] => []
  | (key, t) :: rest => (key, toValue t) :: values rest

/-- The values of earlier tables of a row, in front of those of later ones. -/
def rowValues : List Entries → List Value → List Value
  | [], later => later
  | entries :: earlier, later => rowValues earlier (.table (values entries) :: later)

end

end Tree

end OnionTunnel.Toml

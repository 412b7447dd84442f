import OnionTunnel.Toml.Statement

/-!
# Settings files as tables

The statements of a file are carried out in order: a header opens a table, and the values up to
the next header go into it. A key is set once, and a table is opened by one header.
-/

namespace OnionTunnel.Toml

/-- The table so far and the path of the header that is open. -/
structure Draft where
  entries : Tree.Entries
  table : List String

/-- Carries out a statement. -/
def Draft.step (d : Draft) : Statement → Option Draft
  | .assign path value => do
    return { d with entries := ← Tree.assignIn d.table path value d.entries }
  | .table path => do return ⟨← Tree.openTable path d.entries, path.keys⟩
  | .nextTable path => do return ⟨← Tree.openNext path d.entries, path.keys⟩

/-- The table that a settings file holds. -/
def parse? (text : String) : Option (List (String × Value)) := do
  let lines ← Parse.run? statements text.toList
  let draft ← lines.foldlM Draft.step ⟨[], []⟩
  return Tree.values draft.entries

end OnionTunnel.Toml

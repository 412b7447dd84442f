/-!
# Values of a settings file

A settings file is a table. A number with a fraction and a date are told apart from other values,
but no setting is one, so nothing more is kept of them.
-/

namespace OnionTunnel.Toml

/-- A value in a settings file. -/
inductive Value where
  | string (text : String)
  | integer (number : Int)
  | float
  | boolean (flag : Bool)
  | dateTime
  | array (items : List Value)
  | table (entries : List (String × Value))

/-- The value under a key. -/
def Value.get? (entries : List (String × Value)) (key : String) : Option Value :=
  entries.lookup key

end OnionTunnel.Toml

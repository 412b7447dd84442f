import OnionTunnel.CommandLine.Value

/-!
# Forms of commands

A command has a name, flags and operands. A flag is written `--name value`, `--name=value` or, if it
has a short name, `-n value`, `-nvalue` or `-n=value`. Flags and operands have values of a kind, and
a flag may have a default. A tool has flags of its own and commands.
-/

namespace OnionTunnel.CommandLine

/-- The name that stands for a value in texts: capitals with underscores. -/
def placeholder (name : String) : String :=
  String.ofList ('<' :: name.toList.map (fun c => if c = '-' then '_' else c.toUpper) ++ ['>'])

/-- A value that is given by name. One without a default has to be given. -/
structure Flag where
  short? : Option Char
  name : String
  kind : ValueKind
  about : String
  default? : Option String

/-- How a name is written as a flag. -/
def dashed (name : String) : String := "--" ++ name

namespace Flag

/-- How a flag is shown in texts. -/
def label (f : Flag) : String := dashed f.name ++ " " ++ placeholder f.name

/-- Whether a flag has to be given. -/
def isRequired (f : Flag) : Bool := f.default?.isNone

end Flag

/-- A value that is given by position. It has to be given. -/
structure Operand where
  name : String
  kind : ValueKind

/-- How an operand is shown in texts. -/
def Operand.label (o : Operand) : String := placeholder o.name

/-- The form of a command. -/
structure Form where
  name : String
  about : String
  flags : List Flag
  operands : List Operand

/-- The name of the flag that asks for help. -/
def helpName : String := "help"

namespace Form

/-- The names of all flags, the one that asks for help included. -/
def flagNames (f : Form) : List String := f.flags.map (·.name) ++ [helpName]

/-- The labels of the values that have to be given, except those with a name in a list. -/
def missing (f : Form) (given : List String) : List String :=
  ((f.flags.filter fun g => g.isRequired && !given.contains g.name).map Flag.label) ++
    (f.operands.filter fun o => !given.contains o.name).map Operand.label

end Form

/-- The form of a tool: its own flags, and the forms of its commands. -/
structure Tool extends Form where
  forms : List Form

namespace Tool

/-- The form of a command with a name. -/
def form? (t : Tool) (name : String) : Option Form := t.forms.find? (·.name = name)

/-- The names of all commands, the one that asks for help included. -/
def commandNames (t : Tool) : List String := t.forms.map (·.name) ++ [helpName]

end Tool

end OnionTunnel.CommandLine

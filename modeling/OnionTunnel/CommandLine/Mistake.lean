import OnionTunnel.CommandLine.Value

/-!
# Mistakes in arguments

A complaint tells what is wrong, may add tips how to mend it, and shows the usage unless only a value
is wrong.
-/

namespace OnionTunnel.CommandLine

/-- What is wrong with the arguments. -/
inductive Mistake where
  | unknownCommand (name : String)
  | noCommand (tool : String) (commands : List String)
  | unexpected (argument : String)
  | unexpectedValue (text label : String)
  | noValue (label : String)
  | invalid (text label : String) (fault : ValueFault)
  | repeated (label : String)
  | missing (labels : List String)
  deriving DecidableEq, Repr

namespace Mistake

/-- The mistake of a value whose text is wrong. -/
def ofFault (text label : String) : ValueFault → Mistake
  | .empty => noValue label
  | fault => invalid text label fault

/-- Whether only a value is wrong. -/
def concernsValue : Mistake → Bool
  | noValue _ => true
  | invalid _ _ _ => true
  | _ => false

/-- The text of a mistake. -/
def message : Mistake → String
  | unknownCommand name => s!"unrecognized subcommand '{name}'"
  | noCommand tool commands =>
    s!"'{tool}' requires a subcommand but one was not provided\n  [subcommands: " ++
      ", ".intercalate commands ++ "]"
  | unexpected argument => s!"unexpected argument '{argument}' found"
  | unexpectedValue text label =>
    s!"unexpected value '{text}' for '{label}' found; no more were expected"
  | noValue label => s!"a value is required for '{label}' but none was supplied"
  | invalid text label fault => s!"invalid value '{text}' for '{label}': {fault.message}"
  | repeated label => s!"the argument '{label}' cannot be used multiple times"
  | missing labels =>
    "the following required arguments were not provided:\n  " ++ "\n  ".intercalate labels

end Mistake

/-- Advice on how to mend a mistake. -/
inductive Tip where
  /-- A flag is like the one that was written. -/
  | similarFlag (flag : String)
  /-- Commands are like the one that was written. -/
  | similarCommands (names : List String)
  /-- A flag like the one that was written belongs to a command. -/
  | flagOfCommand (command flag : String)
  /-- What looks like a flag can be passed as a value. -/
  | passAsValue (argument : String)
  /-- A command was written after the separator of operands. -/
  | commandAfterSeparator (name : String)
  deriving DecidableEq, Repr

/-- The text of a tip. -/
def Tip.message : Tip → String
  | similarFlag flag => s!"a similar argument exists: '{flag}'"
  | similarCommands [name] => s!"a similar subcommand exists: '{name}'"
  | similarCommands names =>
    "some similar subcommands exist: " ++ ", ".intercalate (names.map fun name => s!"'{name}'")
  | flagOfCommand command flag => s!"'{command} {flag}' exists"
  | passAsValue argument => s!"to pass '{argument}' as a value, use '-- {argument}'"
  | commandAfterSeparator name => s!"subcommand '{name}' exists; to use it, remove the '--' before it"

/-- What is said about a mistake. -/
structure Complaint where
  mistake : Mistake
  tips : List Tip
  usage? : Option String
  /-- Whether there is a flag that asks for help. -/
  offersHelp : Bool
  deriving DecidableEq, Repr

/-- The text of a complaint. -/
def Complaint.message (c : Complaint) : String :=
  let tips := if c.tips.isEmpty then "" else
    "\n" ++ String.join (c.tips.map fun tip => "\n  tip: " ++ tip.message)
  let usage := match c.usage? with
    | some usage => "\n\n" ++ usage
    | none => ""
  let offer := if c.offersHelp then "\n\nFor more information, try '--help'.\n" else "\n"
  "error: " ++ c.mistake.message ++ tips ++ usage ++ offer

end OnionTunnel.CommandLine

import OnionTunnel.CommandLine.Form

/-!
# Help texts

A usage line shows how something is called. A help text says what it is for, shows its usage, and
lists its commands, operands and flags, each list in a column as wide as its widest entry.
-/

namespace OnionTunnel.CommandLine

/-- A text filled up with blanks to a width. -/
def padTo (width : Nat) (s : String) : String :=
  s ++ String.ofList (List.replicate (width - s.length) ' ')

/-- Two columns, each line indented by two blanks. -/
def columns (rows : List (String × String)) : String :=
  let width := (rows.map (·.1.length)).foldl max 0
  String.join (rows.map fun (left, right) => "  " ++ padTo width left ++ "  " ++ right ++ "\n")

/-- A titled list in two columns; nothing if the list is empty. -/
def titled (title : String) (rows : List (String × String)) : List String :=
  if rows.isEmpty then [] else [title ++ ":\n" ++ columns rows]

/-- A flag and what is said of it. -/
def Flag.row (f : Flag) : String × String :=
  let short := match f.short? with
    | some c => String.ofList ['-', c, ',', ' ']
    | none => "    "
  let default := match f.default? with
    | some d => [s!"[default: {d}]"]
    | none => []
  (short ++ f.label, " ".intercalate ((if f.about.isEmpty then [] else [f.about]) ++ default))

/-- The flag that asks for help. -/
def helpFlagRow : String × String := ("-h, " ++ dashed helpName, "Print help")

/-- What is said of the command that asks for help. -/
def helpAbout : String := "Print this message or the help of the given subcommand(s)"

/-- A usage line. -/
def usageLine (words : List String) : String := " ".intercalate ("Usage:" :: words)

/-- A form as it is called: the words that call it, and the commands one of which has to follow. -/
structure Call where
  words : List String
  form : Form
  commands : List Form

/-- The call of a tool. -/
def Tool.call (t : Tool) : Call := ⟨[t.name], t.toForm, t.forms⟩

/-- The call of a command of a tool. -/
def Tool.callOf (t : Tool) (f : Form) : Call := ⟨[t.name, f.name], f, []⟩

namespace Call

/-- The usage line that shows some flags. -/
def usageWith (c : Call) (flags : List String) : String :=
  usageLine (c.words ++ flags ++ c.form.operands.map Operand.label ++
    if c.commands.isEmpty then [] else [placeholder "command"])

/-- The flags of a form that have to be given. -/
def requiredLabels (c : Call) : List String := (c.form.flags.filter Flag.isRequired).map Flag.label

/-- The usage line. -/
def usage (c : Call) : String :=
  c.usageWith ((if c.form.flags.any fun f => !f.isRequired then ["[OPTIONS]"] else []) ++
    c.requiredLabels)

/-- How the flag with a name that need not be given is shown in a usage line. -/
def optionalLabel? (c : Call) (name : String) : Option String :=
  if name = helpName then some (dashed helpName)
  else (c.form.flags.find? fun f => f.name = name && !f.isRequired).map Flag.label

/-- The usage line that shows what has to be given and then what else has been. -/
def usageShowing (c : Call) (given : List String) : String :=
  c.usageWith (c.requiredLabels ++ given.filterMap c.optionalLabel?)

/-- The usage line after some names have been given; if none has, it is the usual one. -/
def usageGiven (c : Call) (given : List String) : String :=
  if given.isEmpty then c.usage else c.usageShowing given

/-- The help text. -/
def help (c : Call) : String :=
  let commands := c.commands.map fun f => (f.name, f.about)
  let lists :=
    titled "Commands" (if commands.isEmpty then [] else commands ++ [(helpName, helpAbout)]) ++
      titled "Arguments" (c.form.operands.map fun o => (o.label, "")) ++
      titled "Options" (c.form.flags.map Flag.row ++ [helpFlagRow])
  "\n".intercalate ([c.form.about ++ "\n", c.usage ++ "\n"] ++ lists)

end Call

namespace Tool

/-- The usage line of the command that asks for help. -/
def helpUsage (t : Tool) : String := usageLine [t.name, helpName, "[COMMAND]..."]

/-- The help text of the command that asks for help. -/
def helpHelp (t : Tool) : String :=
  "\n".intercalate ([helpAbout ++ "\n", t.helpUsage ++ "\n"] ++
    titled "Arguments" [("[COMMAND]...", "Print help for the subcommand(s)")])

end Tool

end OnionTunnel.CommandLine

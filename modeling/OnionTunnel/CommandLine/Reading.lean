import OnionTunnel.CommandLine.Help
import OnionTunnel.CommandLine.Mistake
import OnionTunnel.Text.Likeness

/-!
# Reading arguments

Arguments are read from left to right. A flag without a value takes the next argument, which may not
look like a flag itself. After `--` every argument is an operand. A value that stands in an argument
of its own is settled, which means that it is held against its kind, when the next flag or operand
comes or the arguments end. Whatever comes first, a mistake or a request for help, ends the reading.
-/

namespace OnionTunnel.CommandLine

/-- Why no command was read. -/
inductive Refusal where
  /-- Help was asked for. -/
  | help (text : String)
  /-- Nothing was asked for, which a help text answers. -/
  | nothing (text : String)
  | complaint (c : Complaint)

/-- What an argument looks like. -/
inductive Look where
  | separator
  | long (name : String) (value? : Option String)
  | short (name : Char) (value? : Option String)
  | plain

/-- How an argument looks. A lone minus sign is plain. -/
def Look.ofText (s : String) : Look :=
  match s.toList with
  | ['-', '-'] => .separator
  | '-' :: '-' :: cs =>
    .long (String.ofList (cs.takeWhile (· ≠ '=')))
      (match cs.dropWhile (· ≠ '=') with
      | _ :: value => some (String.ofList value)
      | [] => none)
  | '-' :: c :: cs =>
    .short c
      (match cs with
      | [] => none
      | '=' :: value => some (String.ofList value)
      | value => some (String.ofList value))
  | _ => .plain

/-- What has been read of the arguments of a call. -/
structure Progress where
  /-- Whether only operands may follow. -/
  operandsOnly : Bool
  /-- The names of the flags and operands that have been given, in order. -/
  given : List String
  values : List (String × Value)
  /-- A flag whose value has not been settled, and the text of the value if it has been read. -/
  pending? : Option (Flag × Option String)

namespace Progress

/-- What has been read at the start. -/
def start : Progress := ⟨false, [], [], none⟩

/-- Whether a flag waits for its value. -/
def isWaiting (p : Progress) : Bool :=
  match p.pending? with
  | some (_, none) => true
  | _ => false

/-- Gives a name the value that a text spells. A name that is given again is not given any more. -/
def give (p : Progress) (name label : String) (kind : ValueKind) (text : String) :
    Option Mistake × Progress :=
  if p.given.contains name then (some (.repeated label), { p with given := p.given.erase name })
  else
    let p := { p with given := p.given ++ [name] }
    match kind.read text with
    | .ok v => (none, { p with values := (name, v) :: p.values })
    | .error fault => (some (.ofFault text label fault), p)

/-- Settles the value of the pending flag. -/
def settle (p : Progress) : Option Mistake × Progress :=
  match p.pending? with
  | none => (none, p)
  | some (f, none) => (some (.noValue f.label), { p with pending? := none })
  | some (f, some text) => { p with pending? := none }.give f.name f.label f.kind text

end Progress

namespace Call

/-- The names of the commands that may follow. -/
def commandNames (c : Call) : List String :=
  if c.commands.isEmpty then [] else c.commands.map (·.name) ++ [helpName]

/-- What is said about a mistake that shows the usual usage line, if any. -/
def complain (c : Call) (m : Mistake) (tips : List Tip) : Refusal :=
  .complaint ⟨m, tips, if m.concernsValue then none else some c.usage, true⟩

/-- Goes on if there is no mistake. -/
def accept (c : Call) : Option Mistake × Progress → Except Refusal Progress
  | (none, p) => .ok p
  | (some m, _) => .error (c.complain m [])

/-- What can be done about something that looks like a flag and is none: with operands, it can be
one. -/
def tipsFor (c : Call) (argument : String) : List Tip :=
  if c.form.operands.isEmpty then [] else [.passAsValue argument]

/-- The flag of a further command that was meant, if the command follows. -/
def flagElsewhere? (c : Call) (name : String) (rest : List String) : Option Tip :=
  rest.findSome? fun word => do
    let f ← c.commands.find? (·.name = word)
    let similar ← (Likeness.meant name f.flagNames).head?
    return .flagOfCommand f.name (dashed similar)

/-- What is said about an unknown name of a flag, after what has been read and before the rest. -/
def complainOfFlag (c : Call) (p : Progress) (name : String) (rest : List String) : Refusal :=
  let argument := dashed name
  match (Likeness.meant name c.form.flagNames).head? with
  | some similar =>
    let given := if p.given.contains similar then p.given else p.given ++ [similar]
    .complaint
      ⟨.unexpected argument, [.similarFlag (dashed similar)], some (c.usageGiven given), true⟩
  | none =>
    .complaint ⟨.unexpected argument, c.tipsFor argument ++ (c.flagElsewhere? name rest).toList,
      some (c.usageGiven p.given), true⟩

/-- What is said about an operand that has no place. If commands may follow, one was meant. -/
def complainOfOperand (c : Call) (p : Progress) (text : String) : Refusal :=
  if c.commands.isEmpty then c.complain (.unexpected text) []
  else if p.operandsOnly && c.commandNames.contains text then
    c.complain (.unexpected text) [.commandAfterSeparator text]
  else
    let similar := Likeness.meant text c.commandNames
    c.complain (.unknownCommand text)
      (if similar.isEmpty then [] else [.similarCommands similar.reverse])

/-- Reads an operand. -/
def readOperand (c : Call) (p : Progress) (text : String) : Except Refusal Progress := do
  match c.form.operands.find? fun o => !p.given.contains o.name with
  | some o => c.accept ((← c.accept p.settle).give o.name o.label o.kind text)
  | none => throw (c.complainOfOperand p text)

/-- Reads a flag, with its value or without. -/
def readFlag (c : Call) (p : Progress) (f : Flag) (value? : Option String) :
    Except Refusal Progress := do
  let p ← c.accept p.settle
  match value? with
  | some text => c.accept (p.give f.name f.label f.kind text)
  | none => return { p with pending? := some (f, none) }

/-- Answers a request for help, once what was pending is settled. -/
def answerHelp (c : Call) (p : Progress) : Except Refusal Progress := do
  let _ ← c.accept p.settle
  throw (.help c.help)

/-- Reads an argument before others. -/
def readArgument (c : Call) (p : Progress) (argument : String) (rest : List String) :
    Except Refusal Progress :=
  if p.operandsOnly then c.readOperand p argument
  else
    match Look.ofText argument with
    | .separator => .ok { p with operandsOnly := true }
    | .plain =>
      match p.pending? with
      | some (f, none) => .ok { p with pending? := some (f, some argument) }
      | _ => c.readOperand p argument
    | .long name value? =>
      match c.form.flags.find? (·.name = name) with
      | some f => c.readFlag p f value?
      | none =>
        if name = helpName then
          match value? with
          | none => c.answerHelp p
          | some text => .error (.complaint ⟨.unexpectedValue text (dashed helpName), [],
              some (c.usageGiven (p.given ++ [helpName])), true⟩)
        else .error (c.complainOfFlag p.settle.2 name rest)
    | .short name value? =>
      match c.form.flags.find? (·.short? = some name) with
      | some f => c.readFlag p f value?
      | none =>
        if name = 'h' then c.answerHelp p
        else
          let argument := String.ofList ['-', name]
          .error (c.complain (.unexpected argument) (c.tipsFor argument))

/-- Reads the arguments of a command. -/
def read (c : Call) (p : Progress) : List String → Except Refusal Progress
  | [] => do
    let p ← c.accept p.settle
    let missing := c.form.missing p.given
    if missing.isEmpty then return p
    else throw (.complaint ⟨.missing missing, [], some (c.usageShowing p.given), true⟩)
  | argument :: rest => do c.read (← c.readArgument p argument rest) rest

end Call

/-- The value of a name: the one that was given, or the default of the flag. -/
def Form.value? (f : Form) (p : Progress) (name : String) : Option Value :=
  (p.values.lookup name).or do
    let g ← f.flags.find? (·.name = name)
    (g.kind.read (← g.default?)).toOption

namespace Tool

/-- What is said about an unknown name after the command that asks for help. -/
def complainOfTopic (name usage : String) (offersHelp : Bool) : Refusal :=
  .complaint ⟨.unknownCommand name, [], some usage, offersHelp⟩

/-- Answers a request for the help text of a command. -/
def helpFor (t : Tool) : List String → Refusal
  | [] => .help t.call.help
  | name :: rest =>
    if name = helpName then
      match rest with
      | [] => .help t.helpHelp
      | other :: _ => complainOfTopic other t.helpUsage false
    else
      match t.form? name, rest with
      | some f, [] => .help (t.callOf f).help
      | some f, other :: _ => complainOfTopic other (t.callOf f).usage true
      | none, _ => complainOfTopic name t.call.usage true

/-- Reads the arguments of a tool: the form of the command and what was read for it. A command is
looked for unless a flag waits for its value or only operands may follow. -/
def read (t : Tool) (p : Progress) : List String → Except Refusal (Form × Progress)
  | [] => do
    let p ← t.call.accept p.settle
    throw (if p.given.isEmpty then .nothing t.call.help
      else t.call.complain (.noCommand t.name t.call.commandNames) [])
  | argument :: rest =>
    let seeks := !p.operandsOnly && !p.isWaiting
    if seeks && argument = helpName then .error (t.helpFor rest)
    else
      match if seeks then t.form? argument else none with
      | some f => do
        let values ← (t.callOf f).read .start rest
        let _ ← t.call.accept p.settle
        return (f, values)
      | none => do t.read (← t.call.readArgument p argument rest) rest

end Tool

end OnionTunnel.CommandLine

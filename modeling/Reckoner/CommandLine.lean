import Reckoner.Prompt

/-!
# The command line

Options come first: a name after one or two hyphens, with its value after an equals sign or in the
next argument; switches need no value.  Two hyphens alone, or the first argument that is no option,
end them.  Everything else names scripts, which are loaded in order.  Then the commands are
executed, or the prompt starts if there are none.
-/

namespace Reckoner

/-- What the command line asks for. -/
structure Options where
  commands : List String := []
  /-- The folder that files are named in. -/
  folder : String
  trace : Bool := false
  backtrace : Bool := false
  documents : String := ""
  scripts : List String := []

namespace Options

/-- The spellings of a switch. -/
def readSwitch (value : String) : Option Bool :=
  if ["1", "t", "T", "TRUE", "true", "True"].contains value then some true
  else if ["0", "f", "F", "FALSE", "false", "False"].contains value then some false
  else none

/-- An option that takes a value. -/
inductive Valued where
  | command
  | folder
  | documents

/-- An option that is a switch. -/
inductive Switch where
  | trace
  | backtrace

/-- What a name stands for. -/
def find? (name : String) : Option (Valued ⊕ Switch) :=
  if name = "c" then some (.inl .command)
  else if name = "wd" then some (.inl .folder)
  else if name = "docs" then some (.inl .documents)
  else if name = "trace" then some (.inr .trace)
  else if name = "backtrace" then some (.inr .backtrace)
  else none

/-- Set an option that takes a value. -/
def setValue (o : Options) (option : Valued) (value : String) : Options :=
  match option with
  | .command => { o with commands := o.commands ++ [value] }
  | .folder => { o with folder := value }
  | .documents => { o with documents := value }

/-- Set a switch. -/
def setSwitch (o : Options) (option : Switch) (on : Bool) : Options :=
  match option with
  | .trace => { o with trace := on }
  | .backtrace => { o with backtrace := on }

/-- An argument that looks like an option: its name and the value after an equals sign. -/
inductive Shape where
  /-- Not an option. -/
  | operand
  /-- The mark that ends the options. -/
  | terminator
  | malformed
  | option (name : String) (value : Option String)

/-- Split a name from the value after an equals sign.  The sign cannot come first. -/
def splitValue : List Char → Shape
  | [] => .malformed
  | '-' :: _ => .malformed
  | '=' :: _ => .malformed
  | chars =>
    let name := String.ofList (chars.takeWhile (· != '='))
    match chars.dropWhile (· != '=') with
    | [] => .option name none
    | _ :: value => .option name (some (String.ofList value))

/-- What an argument looks like. -/
def shape (argument : String) : Shape :=
  match argument.toList with
  | ['-', '-'] => .terminator
  | '-' :: '-' :: name => splitValue name
  | '-' :: c :: name => splitValue (c :: name)
  | _ => .operand

/-- Read arguments into options. -/
def read (o : Options) : List String → Except OptionFault Options
  | [] => .ok o
  | argument :: rest =>
    match shape argument with
    | .operand => .ok { o with scripts := argument :: rest }
    | .terminator => .ok { o with scripts := rest }
    | .malformed => .error (.malformed argument)
    | .option name value =>
      match find? name with
      | none =>
        if name = "help" ∨ name = "h" then .error .helpRequested else .error (.unknown name)
      | some (.inr switch) =>
        match value with
        | none => read (o.setSwitch switch true) rest
        | some text =>
          match readSwitch text with
          | some on => read (o.setSwitch switch on) rest
          | none => .error (.badFlag name text)
      | some (.inl option) =>
        match value with
        | some text => read (o.setValue option text) rest
        | none =>
          match rest with
          | [] => .error (.missingValue name)
          | next :: rest => read (o.setValue option next) rest

end Options

namespace CommandLine

/-- What is printed first. -/
def banner : String :=
  "numtower Copyright (C) 2023-2026   Carl-Philip Hänsch\n" ++
  "    This program comes with ABSOLUTELY NO WARRANTY;\n" ++
  "    This is free software, and you are welcome to redistribute it\n" ++
  "    under certain conditions;\n\n"

/-- What is printed before the prompt starts. -/
def greeting : String := "\n\n    Type (help) to show help\n\n"

/-- Set up the shell for the options. -/
def setUp (o : Options) : Action Unit := do
  modify fun i =>
    { i.withShell o.folder with
      settings := { i.settings with trace := o.trace, backtrace := o.backtrace } }
  Action.setTracing o.trace

/-- Write the documentation and say so, or print why not. -/
def writeDocuments (folder : String) : Action Unit :=
  tryCatch
    (do
      Session.writeDocuments folder
      Action.printLine ("documentation written to " ++ folder))
    fun failure => Action.printLine failure.message

/-- Load a script that the command line names. -/
def loadScript (folder script : String) : Action Unit := do
  Action.printLine ("Loading " ++ script ++ " ...")
  let _ ← Evaluation.loadScript Session.unlimited folder (Path.resolve folder script)

/-- Execute a command and print its value. -/
def execute (command : String) : Action Unit := do
  Action.printLine ("Executing " ++ command ++ " ...")
  Action.printLine (← Session.evalLine command shellScope)

/-- Close what is open. -/
def shutDown : Action Unit := do
  Action.printLine "Exit procedure..."
  Action.setTracing false
  Action.printLine "Exit procedure finished"

/-- Everything up to the prompt.  The answer tells whether a prompt follows. -/
def start (arguments : List String) : Action Bool := do
  Action.print banner
  let o ← Action.ofExcept Fault.option (Options.read { folder := (← get).files.root } arguments)
  setUp o
  if o.documents ≠ "" then
    writeDocuments o.documents
    return false
  o.scripts.forM (loadScript o.folder)
  o.commands.forM execute
  if o.commands.isEmpty then
    Action.print greeting
    return true
  shutDown
  return false

/-- Run the program on its arguments and on what is typed. -/
def run (arguments : List String) (input : String) : Action Unit := do
  if ← start arguments then
    Prompt.run shellScope "" (Prompt.events input)
    shutDown

end CommandLine

end Reckoner

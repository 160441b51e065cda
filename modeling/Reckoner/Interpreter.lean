import Reckoner.Catalogue.Document
import Reckoner.Catalogue.Standard
import Reckoner.Datum.Printer
import Reckoner.Fault
import Reckoner.Scope
import Reckoner.Trace

/-!
# The interpreter and its actions

The state of an interpreter: scopes, catalogue, settings, traces, files, watched files and what has
been printed.  An action is a computation on that state that may fail; a failure keeps the state it
happened in.

The global scope is the first one.  A shell adds a second, sealed scope with the functions that
reach outside.
-/

namespace Reckoner

/-- The switches that programs can read and change. -/
structure Settings where
  backtrace : Bool := false
  trace : Bool := false
  tracePrint : Bool := false
deriving DecidableEq, Repr

/-- A file that is loaded again when it changes: its name, the folder it was named in, and the
function that takes its content, if the content is not a program. -/
structure Watch where
  file : String
  folder : String
  handler : Option Datum

/-- The state of an interpreter. -/
structure Interpreter where
  scopes : ScopeTable := #[]
  catalogue : Catalogue := {}
  settings : Settings := {}
  /-- Whether durations are printed; follows the setting. -/
  printsDurations : Bool := false
  traces : Array TraceLog := #[]
  /-- The place of the trace that records calls now. -/
  tracing : Option Nat := none
  /-- The last part of the names of trace files. -/
  traceName : String := "trace.json"
  files : FileTree := .empty
  /-- The environment variables. -/
  environment : List (String × String) := []
  watches : List Watch := []
  /-- The names of the files that were asked for, latest first. -/
  requested : List String := []
  /-- What has been printed. -/
  output : String := ""

/-- The scope of everything that is not inside another. -/
def globalScope : ScopeId := 0

/-- The scope of a shell, with the functions that reach outside. -/
def shellScope : ScopeId := 1

/-- A computation on the state that may fail. -/
abbrev Action := ExceptT Failure (StateM Interpreter)

namespace Action

variable {α : Type}

/-- Fail with a fault. -/
def fail (fault : Fault) : Action α := throw (.raised fault none)

/-- Continue with the result of a pure computation, or fail with its fault. -/
def ofExcept {ε : Type} (fault : ε → Fault) : Except ε α → Action α
  | .ok value => pure value
  | .error e => fail (fault e)

/-- Print a text. -/
def print (text : String) : Action Unit :=
  modify fun i => { i with output := i.output ++ text }

/-- Print a text and end the line. -/
def printLine (text : String) : Action Unit := print (text ++ "\n")

/-- Attribute failures to a list, unless they belong to a list inside it. -/
def located (position : Position) (action : Action α) : Action α :=
  tryCatch action fun failure => throw (failure.locate position)

/-- Run an action, and another one after it whether it fails or not. -/
def andThenAlways (action : Action α) (last : Action Unit) : Action α := do
  let value ← tryCatch action fun failure => do
    last
    throw failure
  last
  return value

/-- Run an action from a state. -/
def runFrom (action : Action α) (i : Interpreter) : Except Failure α × Interpreter :=
  (ExceptT.run action).run i

end Action

namespace Interpreter

/-- The bindings of the declared functions in a catalogue, latest last. -/
def declaredBindings (c : Catalogue) : Bindings :=
  c.byName.reverse.filterMap fun (name, d) => d.function.map fun f => (name, .native f)

/-- An interpreter as it starts, without access to the outside. -/
def initial : Interpreter where
  scopes := #[{ bindings :=
    ("true", .bool true) :: ("false", .bool false) :: declaredBindings .standard }]
  catalogue := .standard

/-- Add the functions that reach outside, with files named relative to a folder. -/
def withShell (i : Interpreter) (folder : String) : Interpreter :=
  { i with
    scopes := i.scopes.push
      { bindings := declaredBindings (({} : Catalogue).declareShell folder)
        outer := some globalScope
        isSealed := true }
    catalogue := i.catalogue.declareShell folder }

/-- The value of an environment variable. -/
def environmentValue? (i : Interpreter) (name : String) : Option String := i.environment.lookup name

/-! ## Names of native functions -/

/-- The least name among those of a scope that are bound to the code of a native function. -/
def boundName? (bindings : Bindings) (f : Native) : Option String :=
  let names := bindings.filterMap fun (name, value) =>
    match value with
    | .native g => if g.code = f.code then some name else none
    | _ => none
  names.foldl (fun least name =>
    match least with
    | none => some name
    | some other => some (if name < other then name else other)) none

/-- The name of a native function: the declared one, or else the name of a variable that holds
it. -/
def nativeName (i : Interpreter) (scope : ScopeId) (f : Native) : String :=
  match i.catalogue.findNative? f with
  | some d => d.name
  | none =>
    match (i.scopes.chain scope).findSome? fun entry => boundName? entry.2.bindings f with
    | some name => name
    | none => "[unserializable native func]"

/-- The text of a value that reads back, as seen from a scope. -/
def serialize (i : Interpreter) (scope : ScopeId) (value : Datum) : String :=
  value.serialize (i.nativeName scope)

/-- The text of a value for people. -/
def display (i : Interpreter) (value : Datum) : String :=
  value.display (i.nativeName globalScope)

/-! ## Traces -/

/-- Record an event in a trace. -/
def record (i : Interpreter) (trace : Nat) (event : TraceEvent) : Interpreter :=
  { i with traces := i.traces.modify trace (·.record event) }

/-- Close the trace that records now. -/
def closeTrace (i : Interpreter) : Interpreter :=
  match i.tracing with
  | none => i
  | some trace => { i with traces := i.traces.modify trace (·.close), tracing := none }

/-- Start a trace that goes to a file, or to none. -/
def openTrace (i : Interpreter) (file : Option String) : Interpreter :=
  { i with traces := i.traces.push { file }, tracing := some i.traces.size }

/-- The text of the latest trace of a sort. -/
def latestTrace? (i : Interpreter) (toFile : Bool) : Option String :=
  (i.traces.toList.reverse.find? fun log => log.file.isSome == toFile).map (·.text)

/-- The created files with their contents; a trace file has the text of the latest trace in it. -/
def createdFiles (i : Interpreter) : List (String × String) :=
  i.files.createdFiles.map fun (name, content) =>
    match i.traces.toList.reverse.find? fun log => log.file == some (i.files.key name) with
    | some log => (name, log.text)
    | none => (name, content)

end Interpreter

namespace Action

variable {α : Type}

/-- Run an action as a call that a trace records.  The end is recorded in the same trace as the
beginning, whatever has happened to the traces in between. -/
def traced (trace : Nat) (name category : String) (action : Action α) : Action α := do
  modify (·.record trace ⟨name, category, .beginning⟩)
  andThenAlways action (modify (·.record trace ⟨name, category, .ending⟩))

/-- The text of a value for people. -/
def display (value : Datum) : Action String := return (← get).display value

/-- Switch tracing into a file on or off.  The trace that was open is closed first. -/
def setTracing (on : Bool) : Action Unit := do
  modify (·.closeTrace)
  if on then
    let i ← get
    let path := (i.environmentValue? "NUMTOWER_TRACEDIR").getD "" ++ i.traceName
    let files ← ofExcept .file (i.files.create path "")
    set ({ i with files }.openTrace (some (i.files.key path)))

end Action

end Reckoner

import Reckoner.Evaluation

/-!
# What a host does with an interpreter

Evaluating texts and single lines, applying functions, declaring functions, writing the
documentation, tracing into memory, and changing files that are watched.
-/

namespace Reckoner

namespace Session

/-- How deeply evaluations may be nested; more than any stack holds. -/
def depthLimit : Nat := 1000000000000

/-- The evaluation of a session. -/
def unlimited : Evaluator := evaluator depthLimit

/-- The name of what is typed at the prompt. -/
def promptSource : String := "user prompt"

/-- Check an expression and give its type. -/
def check (expression : Datum) : Action TypeExpr := do
  Action.ofExcept Fault.rejected (expression.infer (← get).catalogue)

/-- Read the first expression of a text. -/
def read (source text : String) : Action Datum :=
  Action.ofExcept Fault.read (Datum.read source text)

/-- Evaluate all expressions of a text. -/
def evalText (source text : String) (scope : ScopeId) : Action Datum :=
  Evaluation.evalText unlimited source text scope

/-- Evaluate an expression. -/
def eval (expression : Datum) (scope : ScopeId) : Action Datum := unlimited.eval expression scope

/-- Apply a function. -/
def apply (function : Datum) (arguments : List Datum) : Action Datum :=
  unlimited.apply function arguments

/-- Read, check and evaluate the first expression of a line, and write the value. -/
def evalLine (line : String) (scope : ScopeId) : Action String := do
  let code ← read promptSource line
  let _ ← check code
  let value ← eval code scope
  return (← get).serialize scope value

/-- Print a failure as the prompt shows it.  The stack of the interpreter is not modelled; a word
stands in its place. -/
def printFailure (failure : Failure) : Action Unit := do
  let stack := if (← get).settings.backtrace then " STACK" else ""
  Action.printLine ("error: " ++ failure.message ++ stack)

/-! ## Declarations -/

/-- Start a chapter of the catalogue. -/
def declareTitle (title : String) : Action Unit :=
  modify fun i => { i with catalogue := i.catalogue.addTitle title }

/-- Declare a function, and bind its name in the global scope if it has code. -/
def declare (d : Declaration) : Action Unit :=
  modify fun i =>
    { i with
      catalogue := i.catalogue.add d
      scopes := match d.function with
        | some f => i.scopes.assign globalScope d.name (.native f)
        | none => i.scopes }

/-- Forget all declarations.  Variables stay bound. -/
def forgetDeclarations : Action Unit := modify fun i => { i with catalogue := {} }

/-- Bind a name to a function that is not declared. -/
def bindNative (name : String) (f : Native) : Action Unit :=
  modify fun i => { i with scopes := i.scopes.assign globalScope name (.native f) }

/-! ## Documentation -/

/-- Write the documentation into a folder, which is made if it is missing. -/
def writeDocuments (folder : String) : Action Unit := do
  let i ← get
  let files ← Action.ofExcept (Fault.documentFolder folder) (i.files.makeFolder folder)
  set { i with files }
  for (name, content) in i.catalogue.documents do
    let path := Path.join folder name
    let i ← get
    let files ← Action.ofExcept (Fault.documentFile path) (i.files.create path content)
    set { i with files }

/-! ## Traces -/

/-- Trace into memory. -/
def startTrace : Action Unit := modify (·.openTrace none)

/-- Close the trace in memory and give its text. -/
def stopTrace : Action String := do
  modify (·.closeTrace)
  return ((← get).latestTrace? false).getD ""

/-- The text of the trace file so far. -/
def traceFileText : Action String := return ((← get).latestTrace? true).getD ""

/-! ## Watched files -/

/-- Load a watched file again.  A failure is printed. -/
def reload (watch : Watch) : Action Unit :=
  tryCatch (Evaluation.loadWatched unlimited watch) printFailure

/-- Change a file, and load it again for everyone who watches it. -/
def overwrite (file content : String) : Action Unit := do
  let i ← get
  let name := i.files.key file
  set { i with files := i.files.put name content }
  for watch in i.watches do
    if i.files.key watch.file = name then reload watch

/-! ## Variables -/

/-- The variables of the global scope. -/
def globalBindings (i : Interpreter) : Bindings :=
  match i.scopes[globalScope]? with
  | some scope => scope.bindings
  | none => []

/-- The variables of the global scope that an interpreter does not start with, by name. -/
def newVariables (i : Interpreter) : List (String × Datum) :=
  let initialNames := (globalBindings .initial).map Prod.fst
  let added := (globalBindings i).filter fun binding => !initialNames.contains binding.1
  added.mergeSort fun a b => a.1 ≤ b.1

end Session

end Reckoner

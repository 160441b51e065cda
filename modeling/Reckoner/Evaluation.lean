import Reckoner.Builtin.Run
import Reckoner.Reader

/-!
# Evaluation

`evalStep` evaluates one layer of an expression and takes the evaluation of everything below as an
argument; `evaluator` ties the knot with a bound on the depth.  Everything that is proved about a
single layer for any such argument therefore holds of every `evaluator`.

* Symbols are looked up from the scope outward; lists are special forms or calls; everything else
  evaluates to itself, except for foreign values, which are no expressions.
* A list that was read from a text locates the failures inside it.
* The arguments of a call are evaluated from left to right, after the function.
* Definitions go to the nearest scope that is not sealed.
-/

namespace Reckoner

/-- How expressions below the current one are evaluated and functions are applied. -/
structure Evaluator where
  eval : Datum → ScopeId → Action Datum
  apply : Datum → List Datum → Action Datum

namespace Evaluation

/-- Bind parameters to arguments; parameters without an argument are nil. -/
def bindParameters : List Datum → List Datum → Bindings → Except Fault Bindings
  | [], _, bindings => .ok bindings
  | .symbol name :: parameters, arguments, bindings =>
    bindParameters parameters arguments.tail
      (bindings.assign name (arguments.head?.getD .nil))
  | _ :: _, _, _ => .error .parameterNotSymbol

/-- The variables of a call.  A list of parameters takes at most as many arguments, a single symbol
takes all of them as a list, and nil takes none. -/
def callBindings (parameters : Datum) (arguments : List Datum) : Except Fault Bindings :=
  match parameters with
  | .list _ names =>
    if names.length < arguments.length then
      .error (.tooManyArguments names.length arguments.length)
    else bindParameters names arguments []
  | .symbol name => .ok [(name, .ofList arguments)]
  | .nil => .ok []
  | _ => .error .malformedParameters

/-- Add a scope to the table. -/
def newScope (scope : Scope) : Action ScopeId := do
  let id := (← get).scopes.size
  modify fun i => { i with scopes := i.scopes.push scope }
  return id

/-- The scope of a file: its own name, the folder it was named in, and loaders that belong to its
own folder. -/
def scriptScope (folder file : String) : Scope :=
  let own := Path.folderOf file
  { bindings :=
      [("__DIR__", .text folder), ("__FILE__", .text file),
        ("import", .native (.importFile .script own)), ("watch", .native (.watchFile .script own))]
    outer := some shellScope
    isSealed := true }

/-- The content of a script.  The name is noted, so that whoever supplies the files knows which ones
matter. -/
def readScript (file : String) : Action String := do
  modify fun i => { i with requested := file :: i.requested }
  Action.ofExcept (Fault.script file) ((← get).files.read file)

/-- Check and evaluate expressions one after another; the last value counts. -/
def evalEach (below : Evaluator) (scope : ScopeId) : Datum → List Datum → Action Datum
  | last, [] => return last
  | _, expression :: rest => do
    let _ ← Action.ofExcept Fault.rejected (expression.infer (← get).catalogue)
    evalEach below scope (← below.eval expression scope) rest

/-- Evaluate all expressions of a text. -/
def evalText (below : Evaluator) (source text : String) (scope : ScopeId) : Action Datum := do
  let tokens ← Action.ofExcept Fault.read (Token.scan source text)
  let program := Program.ofTokens tokens
  let value ← evalEach below scope .nil program.expressions
  match program.failure with
  | some error => Action.fail (.read error)
  | none => return value

/-! ## Files -/

/-- Evaluate a file in a scope of its own. -/
def loadScript (below : Evaluator) (folder file : String) : Action Datum := do
  let content ← readScript file
  let scope ← newScope (scriptScope folder file)
  evalText below file content scope

/-- Load a watched file: evaluate it, or hand its content to the handler. -/
def loadWatched (below : Evaluator) (watch : Watch) : Action Unit := do
  match watch.handler with
  | none => let _ ← loadScript below watch.folder watch.file
  | some handler =>
    let content ← readScript watch.file
    let _ ← below.apply handler [.text content]

/-- The file that the first argument names, relative to a folder. -/
def fileArgument (folder : String) (arguments : List Datum) : Action String := do
  let name ← Action.ofExcept id (Builtin.first arguments)
  return Path.resolve folder (← Action.display name)

/-- Load a file now, and have it loaded again when it changes. -/
def watchFile (below : Evaluator) (folder : String) (arguments : List Datum) : Action Datum := do
  let file ← fileArgument folder arguments
  let watch : Watch := { file, folder, handler := arguments[1]? }
  loadWatched below watch
  modify fun i => { i with watches := i.watches ++ [watch] }
  return .bool true

/-! ## Calls -/

/-- Run a native function. -/
def runNative (below : Evaluator) (f : Native) (arguments : List Datum) : Action Datum :=
  match f with
  | .builtin b => b.run arguments
  | .importFile _ folder => do loadScript below folder (← fileArgument folder arguments)
  | .watchFile _ folder => watchFile below folder arguments
  | .echo => return .ofList arguments
  | .labelled name => return .ofList (.symbol name :: arguments)

/-- Run a native function.  A declared one is recorded in the trace that is open. -/
def applyNative (below : Evaluator) (f : Native) (arguments : List Datum) : Action Datum := do
  let i ← get
  match i.tracing, i.catalogue.findNative? f with
  | some trace, some d => Action.traced trace d.name "builtin" (runNative below f arguments)
  | _, _ => runNative below f arguments

/-- The scope of a call: the variables that stand for the arguments, inside the scope that the
function was made in. -/
def callScope (parameters : Datum) (outer : ScopeId) (arguments : List Datum) :
    Action ScopeId := do
  let bindings ← Action.ofExcept id (callBindings parameters arguments)
  newScope { bindings, outer := some outer }

/-- Apply a value to arguments. -/
def applyStep (below : Evaluator) (function : Datum) (arguments : List Datum) : Action Datum :=
  match function with
  | .closure parameters body scope => do
    below.eval body (← callScope parameters scope arguments)
  | .native f => applyNative below f arguments
  | other => do Action.fail (.unknownFunction (← Action.display other))

theorem applyStep_closure (below : Evaluator) (parameters body : Datum) (scope : ScopeId)
    (arguments : List Datum) :
    applyStep below (.closure parameters body scope) arguments = (do
      let bindings ← Action.ofExcept id (callBindings parameters arguments)
      below.eval body (← newScope { bindings, outer := some scope })) :=
  bind_assoc ..

/-! ## Special forms -/

/-- Conditions with their branches; the first condition that holds decides.  A last item without a
condition is taken when none holds. -/
def evalBranches (below : Evaluator) (scope : ScopeId) : List Datum → Action Datum
  | condition :: branch :: rest => do
    if (← below.eval condition scope).truthy then below.eval branch scope
    else evalBranches below scope rest
  | [last] => below.eval last scope
  | [] => return .nil

/-- Expressions one after another; the last value counts. -/
def evalSequence (below : Evaluator) (scope : ScopeId) : List Datum → Action Datum
  | [] => return .nil
  | [last] => below.eval last scope
  | expression :: rest => do
    let _ ← below.eval expression scope
    evalSequence below scope rest

/-- Give a variable a value in the scope that takes definitions. -/
def evalDefinition (below : Evaluator) (keyword : String) (scope : ScopeId) :
    List Datum → Action Datum
  | [.symbol name, expression] => do
    let value ← below.eval expression scope
    modify fun i =>
      { i with scopes := i.scopes.assign (i.scopes.definitionTarget scope) name value }
    return value
  | [other, _] => do Action.fail (.definitionOf keyword (← Action.display other))
  | _ => Action.fail (.malformedDefinition keyword)

/-- Evaluate an expression as a call that is traced under its own text.  Durations are not modelled;
a word stands in their place. -/
def evalTimed (below : Evaluator) (scope : ScopeId) : List Datum → Action Datum
  | [] => Action.fail (.missing 1 1)
  | expression :: _ => do
    let label ← Action.display expression
    let value ← match (← get).tracing with
      | some trace => Action.traced trace label "scm" (below.eval expression scope)
      | none => below.eval expression scope
    if (← get).printsDurations then Action.printLine ("trace DURATION " ++ label)
    return value

/-- A function value. -/
def evalLambda (scope : ScopeId) : List Datum → Action Datum
  | [parameters, body] => return .closure parameters.erase body scope
  | _ => Action.fail .malformedLambda

/-- Evaluate expressions from left to right. -/
def evalArguments (below : Evaluator) (scope : ScopeId) : List Datum → Action (List Datum)
  | [] => return []
  | expression :: rest => do
    let value ← below.eval expression scope
    return value :: (← evalArguments below scope rest)

/-- Evaluate the function and the arguments of a call.  The body of a function is evaluated in place
of the call; everything else is applied. -/
def evalCall (below : Evaluator) (scope : ScopeId) (head : Datum) (arguments : List Datum) :
    Action Datum := do
  let function ← below.eval head scope
  let values ← evalArguments below scope arguments
  match function with
  | .closure parameters body outer => do
    below.eval body (← callScope parameters outer values)
  | other => applyStep below other values

/-- Evaluating the body in place of the call is applying the function. -/
theorem evalCall_eq_applyStep (below : Evaluator) (scope : ScopeId) (head : Datum)
    (arguments : List Datum) :
    evalCall below scope head arguments = (do
      let function ← below.eval head scope
      applyStep below function (← evalArguments below scope arguments)) := by
  unfold evalCall
  refine bind_congr fun function => bind_congr fun values => ?_
  cases function <;> rfl

/-- The special forms. -/
inductive Keyword where
  | quote
  | time
  | branch
  | definition
  | lambda
  | sequence
deriving DecidableEq, Repr

/-- The special form that a name at the head of a list stands for. -/
def keyword? (name : String) : Option Keyword :=
  if name = "quote" then some .quote
  else if name = "time" then some .time
  else if name = "if" then some .branch
  else if name = "define" ∨ name = "set" then some .definition
  else if name = "lambda" then some .lambda
  else if name = "begin" then some .sequence
  else none

/-- Evaluate a special form. -/
def evalForm (below : Evaluator) (scope : ScopeId) (name : String) (keyword : Keyword)
    (items : List Datum) : Action Datum :=
  match keyword with
  | .quote =>
    match items with
    | [] => Action.fail (.missing 1 1)
    | datum :: _ => return datum.erase
  | .time => evalTimed below scope items
  | .branch => evalBranches below scope items
  | .definition => evalDefinition below name scope items
  | .lambda => evalLambda scope items
  | .sequence => evalSequence below scope items

/-- Evaluate a list.  The empty list is itself. -/
def evalList (below : Evaluator) (scope : ScopeId) : List Datum → Action Datum
  | [] => return .ofList []
  | .symbol name :: items =>
    match keyword? name with
    | some keyword => evalForm below scope name keyword items
    | none => evalCall below scope (.symbol name) items
  | head :: items => evalCall below scope head items

/-- Evaluate one layer of an expression. -/
def evalStep (below : Evaluator) (expression : Datum) (scope : ScopeId) : Action Datum :=
  match expression with
  | .list (some position) items => Action.located position (evalList below scope items)
  | .list none items => evalList below scope items
  | .symbol name => do
    match (← get).scopes.lookup scope name with
    | some value => return value
    | none => Action.fail (.undefinedSymbol name)
  | .host h => Action.fail (.notExpression h.text)
  | value => return value

end Evaluation

/-- Evaluation that is nested at most as deeply as a bound says. -/
def evaluator : Nat → Evaluator
  | 0 => { eval := fun _ _ => throw .exhausted, apply := fun _ _ => throw .exhausted }
  | depth + 1 =>
    { eval := fun expression scope => Evaluation.evalStep (evaluator depth) expression scope
      apply := fun function arguments =>
        Evaluation.applyStep (evaluator depth) function arguments }

end Reckoner

import Reckoner.Proofs.Evaluation.Evolution

/-!
# What goes on during an evaluation

An activity is the evaluation of an expression, the application of a function, or the run of a
native function.  `Starts` says which activities an activity starts and in which state: while the
inner one goes on the outer one waits for it, so a chain of `Starts` is what is on the stack.

The relation is given by the control flow alone, in one inductive per function of the evaluation,
and `Reaches` is its closure.  Two facts tie it to the evaluation itself.

* Nothing is started in vain.  `Starts.fails`: the failure of what has been started is the failure
  of the activity, except that a list adds its position to a failure without one.
* Nothing is missing.  `Activity.eq_position?`: a failure has the position of the activity itself,
  unless something that has been started has put another one on it.
-/

namespace Reckoner

/-- Note in the open trace that a call begins.  A call without a name is not recorded. -/
def Interpreter.beginning (i : Interpreter) (name : Option String) (category : String) :
    Interpreter :=
  match i.tracing, name with
  | some trace, some name => i.record trace ⟨name, category, .beginning⟩
  | _, _ => i

/-! ## Failures of builtins -/

namespace Builtin

open Reckoner.Action

theorem failsBare_printLine (text : String) (i : Interpreter) : FailsBare (printLine text) i :=
  failsBare_modify _ i

theorem failsBare_display (value : Datum) (i : Interpreter) : FailsBare (display value) i :=
  failsBare_get_bind (failsBare_pure _ i)

theorem failsBare_printEntry (c : Catalogue) (entry : String) (i : Interpreter) :
    FailsBare (printEntry c entry) i := by
  unfold printEntry
  split
  · exact FailsBare.bind (failsBare_printLine _ i) fun _ j _ => failsBare_printLine _ j
  · split
    · exact failsBare_fail _ i
    · exact failsBare_printLine _ i

theorem failsBare_printOverview (i : Interpreter) : FailsBare printOverview i := by
  refine failsBare_get_bind (FailsBare.bind (failsBare_printLine _ i) fun _ j _ => ?_)
  refine FailsBare.bind (failsBare_forIn (fun entry _ k => ?_) j) fun _ k _ => ?_
  · exact FailsBare.bind (failsBare_printEntry _ entry k) fun _ l _ => failsBare_pure _ l
  · exact FailsBare.bind (failsBare_printLine _ k) fun _ l _ => failsBare_printLine _ l

theorem failsBare_printTopic (d : Declaration) (i : Interpreter) : FailsBare (printTopic d) i := by
  have hline {action : Action Unit} {text : String} (h : ∀ j, FailsBare action j)
      (j : Interpreter) : FailsBare (printLine text >>= fun _ => action) j :=
    FailsBare.bind (failsBare_printLine text j) fun _ k _ => h k
  refine hline (hline (hline (hline (hline (hline (hline fun j => ?_)))))) i
  refine FailsBare.bind (failsBare_forIn (fun p _ k => ?_) j) fun _ k _ => failsBare_printLine _ k
  exact FailsBare.bind (failsBare_printLine _ k) fun _ l _ => failsBare_pure _ l

theorem failsBare_explain (value : Datum) (i : Interpreter) : FailsBare (explain value) i := by
  unfold explain
  split
  · exact failsBare_printOverview i
  · refine failsBare_get_bind ?_
    split
    · exact failsBare_printTopic _ i
    · exact failsBare_fail _ i

theorem failsBare_setTracing (on : Bool) (i : Interpreter) : FailsBare (setTracing on) i := by
  refine FailsBare.bind (failsBare_modify _ i) fun _ j _ => ?_
  cases on with
  | false => exact failsBare_pure _ j
  | true =>
    refine failsBare_get_bind (FailsBare.bind (failsBare_ofExcept _ _ j) fun files k _ => ?_)
    exact failsBare_modify _ k

theorem failsBare_writeSetting (name : String) (on : Bool) (i : Interpreter) :
    FailsBare (writeSetting name on) i := by
  unfold writeSetting
  split_ifs
  · exact failsBare_modify _ i
  · exact FailsBare.bind (failsBare_modify _ i) fun _ j _ => failsBare_setTracing on j
  · exact failsBare_modify _ i
  · exact failsBare_fail _ i
  · exact failsBare_fail _ i

theorem failsBare_changeSettings (arguments : List Datum) (i : Interpreter) :
    FailsBare (changeSettings arguments) i := by
  unfold changeSettings
  split
  · exact failsBare_pure _ i
  · exact FailsBare.bind (failsBare_display _ i) fun _ j _ =>
      failsBare_get_bind (failsBare_ofExcept _ _ j)
  · refine FailsBare.bind (failsBare_display _ i) fun _ j _ => ?_
    exact FailsBare.bind (failsBare_writeSetting _ _ j) fun _ k _ => failsBare_pure _ k

theorem failsBare_environmentVariable (arguments : List Datum) (i : Interpreter) :
    FailsBare (environmentVariable arguments) i := by
  unfold environmentVariable
  split
  · exact failsBare_fail _ i
  · exact FailsBare.bind (failsBare_display _ i) fun _ j _ =>
      failsBare_get_bind (failsBare_pure _ j)
  · exact FailsBare.bind (failsBare_display _ i) fun _ j _ =>
      failsBare_get_bind (failsBare_pure _ j)

theorem failsBare_printValues (values : List Datum) (i : Interpreter) :
    FailsBare (printValues values) i := by
  refine FailsBare.bind (failsBare_forIn (fun value _ j => ?_) i) fun _ j _ => ?_
  · refine FailsBare.bind (failsBare_display value j) fun _ k _ => ?_
    exact FailsBare.bind (failsBare_modify _ k) fun _ l _ => failsBare_pure _ l
  · exact FailsBare.bind (failsBare_printLine _ j) fun _ k _ => failsBare_pure _ k

theorem failsBare_run (b : Builtin) (arguments : List Datum) (i : Interpreter) :
    FailsBare (b.run arguments) i := by
  unfold run
  split
  · exact failsBare_ofExcept _ _ i
  · split
    · exact FailsBare.bind (failsBare_explain _ i) fun _ j _ => failsBare_pure _ j
    · refine FailsBare.bind (failsBare_ofExcept _ _ i) fun _ j _ => ?_
      exact FailsBare.bind (failsBare_display _ j) fun _ k _ => failsBare_fail _ k
    · exact failsBare_changeSettings arguments i
    · exact failsBare_printValues arguments i
    · exact failsBare_environmentVariable arguments i

end Builtin

namespace Evaluation

open Reckoner.Action

/-- Something that goes on during an evaluation. -/
inductive Activity where
  | eval (expression : Datum) (scope : ScopeId)
  | apply (function : Datum) (arguments : List Datum)
  /-- The run of a native function. -/
  | call (f : Native) (arguments : List Datum)

namespace Activity

/-- The action of an activity. -/
def perform (below : Evaluator) : Activity → Action Datum
  | eval expression scope => below.eval expression scope
  | apply function arguments => below.apply function arguments
  | call f arguments => runNative below f arguments

/-- The list of a source text that an activity enters. -/
def position? : Activity → Option Position
  | eval (.list position _) _ => position
  | _ => none

end Activity

/-- The special form that an expression at the head of a list stands for. -/
def headKeyword? : Datum → Option Keyword
  | .symbol name => keyword? name
  | _ => none

/-! ## Control flow -/

variable (below : Evaluator)

/-- Expressions are evaluated one after another, each only if it is admitted, and the evaluation
comes to one of them. -/
inductive InOrder (scope : ScopeId) (admits : Interpreter → Datum → Prop) :
    List Datum → Interpreter → Activity → Interpreter → Prop where
  | here {i : Interpreter} {x : Datum} (rest : List Datum) (hadmits : admits i x) :
      InOrder scope admits (x :: rest) i (.eval x scope) i
  | later {i j k : Interpreter} {x value : Datum} {rest : List Datum} {t : Activity}
      (hadmits : admits i x) (hx : (below.eval x scope).runFrom i = (.ok value, j))
      (h : InOrder scope admits rest j t k) : InOrder scope admits (x :: rest) i t k

/-- The conditions and branches of a conditional. -/
inductive InBranches (scope : ScopeId) :
    List Datum → Interpreter → Activity → Interpreter → Prop where
  | condition (i : Interpreter) (condition branch : Datum) (rest : List Datum) :
      InBranches scope (condition :: branch :: rest) i (.eval condition scope) i
  | branch {i j : Interpreter} {condition branch value : Datum} {rest : List Datum}
      (hcondition : (below.eval condition scope).runFrom i = (.ok value, j))
      (htrue : value.truthy = true) :
      InBranches scope (condition :: branch :: rest) i (.eval branch scope) j
  | rest {i j k : Interpreter} {condition branch value : Datum} {rest : List Datum} {t : Activity}
      (hcondition : (below.eval condition scope).runFrom i = (.ok value, j))
      (hfalse : value.truthy = false) (h : InBranches scope rest j t k) :
      InBranches scope (condition :: branch :: rest) i t k
  | last (i : Interpreter) (last : Datum) : InBranches scope [last] i (.eval last scope) i

/-- The expressions of a file, each checked before it is evaluated. -/
inductive InScript (folder file : String) : Interpreter → Activity → Interpreter → Prop where
  | expression {i k : Interpreter} {t : Activity} {content : String} {tokens : List Token}
      (hread : i.files.read file = .ok content) (hscan : Token.scan file content = .ok tokens)
      (h : InOrder below i.scopes.size (fun j x => ∃ type, x.infer j.catalogue = .ok type)
        (Program.ofTokens tokens).expressions ((i.request file).openScript folder file) t k) :
      InScript folder file i t k

/-- The loaders evaluate a file, or hand its content to a handler. -/
inductive InNative : Native → List Datum → Interpreter → Activity → Interpreter → Prop where
  | imported {owner : LoaderOwner} {folder : String} {name : Datum} {rest : List Datum}
      {i k : Interpreter} {t : Activity}
      (h : InScript below folder (Path.resolve folder (i.display name)) i t k) :
      InNative (.importFile owner folder) (name :: rest) i t k
  | watched {owner : LoaderOwner} {folder : String} {name : Datum} {i k : Interpreter}
      {t : Activity} (h : InScript below folder (Path.resolve folder (i.display name)) i t k) :
      InNative (.watchFile owner folder) [name] i t k
  | handled {owner : LoaderOwner} {folder content : String} {name handler : Datum}
      {rest : List Datum} {i : Interpreter}
      (hread : i.files.read (Path.resolve folder (i.display name)) = .ok content) :
      InNative (.watchFile owner folder) (name :: handler :: rest) i
        (.apply handler [.text content]) (i.request (Path.resolve folder (i.display name)))

/-- A function evaluates its body in a scope of its own, a native function runs. -/
inductive InApply : Datum → List Datum → Interpreter → Activity → Interpreter → Prop where
  | body {parameters body : Datum} {outer : ScopeId} {arguments : List Datum} {i : Interpreter}
      {bindings : Bindings} (h : callBindings parameters arguments = .ok bindings) :
      InApply (.closure parameters body outer) arguments i (.eval body i.scopes.size)
        (i.openCall bindings outer)
  | native (f : Native) (arguments : List Datum) (i : Interpreter) :
      InApply (.native f) arguments i (.call f arguments)
        (i.beginning ((i.catalogue.findNative? f).map (·.name)) "builtin")

/-- A list is a call, whose items are evaluated in order before the function is applied, or a
special form. -/
inductive InList (scope : ScopeId) :
    List Datum → Interpreter → Activity → Interpreter → Prop where
  | item {head : Datum} {arguments : List Datum} {i k : Interpreter} {t : Activity}
      (hhead : headKeyword? head = none)
      (h : InOrder below scope (fun _ _ => True) (head :: arguments) i t k) :
      InList scope (head :: arguments) i t k
  | applied {head function : Datum} {arguments values : List Datum} {i j k l : Interpreter}
      {t : Activity} (hhead : headKeyword? head = none)
      (hfunction : (below.eval head scope).runFrom i = (.ok function, j))
      (hvalues : (evalArguments below scope arguments).runFrom j = (.ok values, k))
      (h : InApply function values k t l) : InList scope (head :: arguments) i t l
  | timed {name : String} (hname : keyword? name = some .time) (x : Datum) (rest : List Datum)
      (i : Interpreter) :
      InList scope (.symbol name :: x :: rest) i (.eval x scope)
        (i.beginning (some (i.display x)) "scm")
  | branch {name : String} {items : List Datum} {i k : Interpreter} {t : Activity}
      (hname : keyword? name = some .branch) (h : InBranches below scope items i t k) :
      InList scope (.symbol name :: items) i t k
  | definition {name : String} (hname : keyword? name = some .definition) (defined : String)
      (x : Datum) (i : Interpreter) :
      InList scope [.symbol name, .symbol defined, x] i (.eval x scope) i
  | sequence {name : String} {items : List Datum} {i k : Interpreter} {t : Activity}
      (hname : keyword? name = some .sequence)
      (h : InOrder below scope (fun _ _ => True) items i t k) :
      InList scope (.symbol name :: items) i t k

/-- While an activity goes on to some depth in a state, it starts another one. -/
inductive Starts : ℕ → Activity → Interpreter → ℕ → Activity → Interpreter → Prop where
  | list {depth : ℕ} {position : Option Position} {items : List Datum} {scope : ScopeId}
      {i k : Interpreter} {t : Activity} (h : InList (evaluator depth) scope items i t k) :
      Starts (depth + 1) (.eval (.list position items) scope) i depth t k
  | apply {depth : ℕ} {function : Datum} {arguments : List Datum} {i k : Interpreter}
      {t : Activity} (h : InApply function arguments i t k) :
      Starts (depth + 1) (.apply function arguments) i depth t k
  | call {depth : ℕ} {f : Native} {arguments : List Datum} {i k : Interpreter} {t : Activity}
      (h : InNative (evaluator depth) f arguments i t k) :
      Starts depth (.call f arguments) i depth t k

/-- An activity goes on while another one does: the second has been started by the first, or by one
that the first has led to. -/
inductive Reaches : ℕ → Activity → Interpreter → ℕ → Activity → Interpreter → Prop where
  | refl (depth : ℕ) (t : Activity) (i : Interpreter) : Reaches depth t i depth t i
  | step {depth level bottom : ℕ} {t s u : Activity} {i j k : Interpreter}
      (hstarts : Starts depth t i level s j) (h : Reaches level s j bottom u k) :
      Reaches depth t i bottom u k

variable {below} {scope : ScopeId} {i j k : Interpreter} {t : Activity} {failure : Failure}

/-! ## One layer at a time -/

theorem evalList_of_headKeyword? {head : Datum} (h : headKeyword? head = none)
    (items : List Datum) :
    evalList below scope (head :: items) = evalCall below scope head items := by
  cases head
  case symbol name =>
    rw [evalList]
    simp only [headKeyword?] at h
    rw [h]
  all_goals rfl

theorem eq_symbol_of_headKeyword? {head : Datum} {keyword : Keyword}
    (h : headKeyword? head = some keyword) :
    ∃ name, head = .symbol name ∧ keyword? name = some keyword := by
  cases head
  case symbol name => exact ⟨name, rfl, h⟩
  all_goals cases h

theorem evalList_of_keyword? {name : String} {keyword : Keyword} (h : keyword? name = some keyword)
    (items : List Datum) :
    evalList below scope (.symbol name :: items) = evalForm below scope name keyword items := by
  rw [evalList, h]

theorem runFrom_readScript_ok {file content : String} (h : i.files.read file = .ok content) :
    (readScript file).runFrom i = (.ok content, i.request file) := by
  change (ofExcept (Fault.script file) (i.files.read file)).runFrom (i.request file) = _
  rw [h, runFrom_ofExcept_ok]

theorem eq_of_runFrom_readScript_ok {file content : String}
    (h : (readScript file).runFrom i = (.ok content, k)) :
    i.files.read file = .ok content ∧ k = i.request file := by
  change (ofExcept (Fault.script file) (i.files.read file)).runFrom (i.request file) = _ at h
  cases hread : i.files.read file with
  | error e =>
    rw [hread] at h
    cases h
  | ok content =>
    rw [hread] at h
    cases h
    exact ⟨rfl, rfl⟩

theorem runFrom_fileArgument (folder : String) (name : Datum) (rest : List Datum)
    (i : Interpreter) : (fileArgument folder (name :: rest)).runFrom i =
      (.ok (Path.resolve folder (i.display name)), i) := rfl

theorem runFrom_loadScript_ok {folder file content : String}
    (h : i.files.read file = .ok content) :
    (loadScript below folder file).runFrom i =
      (evalText below file content i.scopes.size).runFrom
        ((i.request file).openScript folder file) := by
  rw [loadScript, runFrom_bind_ok (runFrom_readScript_ok h)]
  rfl

theorem outcome_traced (trace : ℕ) (name category : String) (x : Action Datum)
    (i : Interpreter) : ((traced trace name category x).runFrom i).1 =
      (x.runFrom (i.record trace ⟨name, category, .beginning⟩)).1 := by
  rw [traced, runFrom_modify_bind, runFrom_andThenAlways]

/-- A native function runs from the state in which its beginning is noted. -/
theorem outcome_applyNative (f : Native) (arguments : List Datum) (i : Interpreter) :
    ((applyNative below f arguments).runFrom i).1 =
      ((runNative below f arguments).runFrom
        (i.beginning ((i.catalogue.findNative? f).map (·.name)) "builtin")).1 := by
  unfold Interpreter.beginning
  rw [applyNative, runFrom_get_bind]
  cases i.tracing with
  | none => rfl
  | some trace =>
    cases i.catalogue.findNative? f with
    | none => rfl
    | some d => exact outcome_traced trace d.name "builtin" _ i

/-- Printing a duration does not fail, so the outcome is that of the expression. -/
theorem outcome_evalTimed (x : Datum) (rest : List Datum) (i : Interpreter) :
    ((evalTimed below scope (x :: rest)).runFrom i).1 =
      ((below.eval x scope).runFrom (i.beginning (some (i.display x)) "scm")).1 := by
  have hprint (label : String) (value : Datum) (j : Interpreter) :
      ((do
        if (← get).printsDurations then printLine ("trace DURATION " ++ label)
        return value : Action Datum).runFrom j).1 = .ok value := by
    rw [runFrom_get_bind]
    split <;> rfl
  have hdisplay : (display x).runFrom i = (.ok (i.display x), i) := rfl
  unfold Interpreter.beginning
  rw [evalTimed, runFrom_bind_ok hdisplay, runFrom_get_bind]
  cases i.tracing with
  | none => exact outcome_bind_of_ok (hprint _) _ i
  | some trace => exact (outcome_bind_of_ok (hprint _) _ i).trans (outcome_traced trace _ "scm" _ i)

/-! ## What has been started fails for what has started it -/

theorem InOrder.fails_arguments {xs : List Datum}
    (h : InOrder below scope (fun _ _ => True) xs i t k)
    (hfails : (t.perform below).FailsWith k failure) :
    (evalArguments below scope xs).FailsWith i failure := by
  induction h with
  | here rest _ => exact hfails.bind
  | later _ hx _ ih => exact .bind_ok hx (ih hfails).bind

theorem InOrder.fails_sequence {xs : List Datum}
    (h : InOrder below scope (fun _ _ => True) xs i t k)
    (hfails : (t.perform below).FailsWith k failure) :
    (evalSequence below scope xs).FailsWith i failure := by
  induction h with
  | here rest _ =>
    cases rest with
    | nil => exact hfails
    | cons y rest => exact hfails.bind
  | later _ hx h ih =>
    cases h with
    | here rest _ => exact .bind_ok hx (ih hfails)
    | later => exact .bind_ok hx (ih hfails)

theorem InOrder.fails_each {xs : List Datum}
    (h : InOrder below scope (fun j x => ∃ type, x.infer j.catalogue = .ok type) xs i t k)
    (hfails : (t.perform below).FailsWith k failure) (last : Datum) :
    (evalEach below scope last xs).FailsWith i failure := by
  have hcheck {i : Interpreter} {x : Datum} {type : TypeExpr} (h : x.infer i.catalogue = .ok type) :
      (ofExcept Fault.rejected (x.infer i.catalogue)).runFrom i = (.ok type, i) := by
    rw [h]
    rfl
  induction h generalizing last with
  | @here i _ rest hadmits =>
    obtain ⟨type, htype⟩ := hadmits
    exact .bind_ok (runFrom_get i) (.bind_ok (hcheck htype) hfails.bind)
  | @later i _ _ _ _ _ _ hadmits hx _ ih =>
    obtain ⟨type, htype⟩ := hadmits
    exact .bind_ok (runFrom_get i) (.bind_ok (hcheck htype) (.bind_ok hx (ih hfails _)))

theorem InBranches.fails {xs : List Datum} (h : InBranches below scope xs i t k)
    (hfails : (t.perform below).FailsWith k failure) :
    (evalBranches below scope xs).FailsWith i failure := by
  induction h with
  | condition => exact hfails.bind
  | branch hcondition htrue =>
    refine .bind_ok hcondition ?_
    rw [if_pos htrue]
    exact hfails
  | rest hcondition hfalse _ ih =>
    refine .bind_ok hcondition ?_
    rw [if_neg (by simp [hfalse])]
    exact ih hfails
  | last => exact hfails

theorem InScript.fails {folder file : String} (h : InScript below folder file i t k)
    (hfails : (t.perform below).FailsWith k failure) :
    (loadScript below folder file).FailsWith i failure := by
  cases h with
  | expression hread hscan h =>
    rw [FailsWith, runFrom_loadScript_ok hread, evalText, hscan,
      runFrom_bind_ok (runFrom_ofExcept_ok _ _ _)]
    exact (h.fails_each hfails .nil).bind

theorem InNative.fails {f : Native} {arguments : List Datum}
    (h : InNative below f arguments i t k) (hfails : (t.perform below).FailsWith k failure) :
    (runNative below f arguments).FailsWith i failure := by
  cases h with
  | imported h => exact .bind_ok (runFrom_fileArgument _ _ _ i) (h.fails hfails)
  | watched h => exact .bind_ok (runFrom_fileArgument _ _ _ i) (h.fails hfails).bind.bind
  | handled hread =>
    refine .bind_ok (runFrom_fileArgument _ _ _ i) (FailsWith.bind ?_)
    exact .bind_ok (runFrom_readScript_ok hread) hfails.bind

theorem InApply.fails {function : Datum} {arguments : List Datum}
    (h : InApply function arguments i t k) (hfails : (t.perform below).FailsWith k failure) :
    (applyStep below function arguments).FailsWith i failure := by
  cases h with
  | body h =>
    rw [applyStep_closure, h]
    exact hfails
  | native f => exact (outcome_applyNative f arguments i).trans hfails

theorem InList.fails {items : List Datum} (h : InList below scope items i t k)
    (hfails : (t.perform below).FailsWith k failure) :
    (evalList below scope items).FailsWith i failure := by
  cases h with
  | item hhead h =>
    rw [evalList_of_headKeyword? hhead, evalCall_eq_applyStep]
    cases h with
    | here => exact hfails.bind
    | later _ hx h => exact .bind_ok hx (h.fails_arguments hfails).bind
  | applied hhead hfunction hvalues h =>
    rw [evalList_of_headKeyword? hhead, evalCall_eq_applyStep]
    exact .bind_ok hfunction (.bind_ok hvalues (h.fails hfails))
  | timed hname x rest =>
    rw [evalList_of_keyword? hname]
    exact (outcome_evalTimed x rest i).trans hfails
  | branch hname h =>
    rw [evalList_of_keyword? hname]
    exact h.fails hfails
  | definition hname defined x =>
    rw [evalList_of_keyword? hname]
    exact hfails.bind
  | sequence hname h =>
    rw [evalList_of_keyword? hname]
    exact h.fails_sequence hfails

/-! ## An activity that fails by itself puts no position on the failure -/

theorem failsBare_arguments {xs : List Datum}
    (h : ∀ t k, InOrder below scope (fun _ _ => True) xs i t k → FailsBare (t.perform below) k) :
    FailsBare (evalArguments below scope xs) i := by
  induction xs generalizing i with
  | nil => exact failsBare_pure _ i
  | cons x rest ih =>
    refine FailsBare.bind (h _ _ (.here rest trivial)) fun value j hx => ?_
    refine FailsBare.bind (ih fun t k ht => h t k (.later trivial hx ht)) fun values k _ => ?_
    exact failsBare_pure _ k

theorem failsBare_sequence {xs : List Datum}
    (h : ∀ t k, InOrder below scope (fun _ _ => True) xs i t k → FailsBare (t.perform below) k) :
    FailsBare (evalSequence below scope xs) i := by
  induction xs generalizing i with
  | nil => exact failsBare_pure _ i
  | cons x rest ih =>
    have hx := h _ _ (.here rest trivial)
    cases rest with
    | nil => exact hx
    | cons y rest =>
      exact FailsBare.bind hx fun value j hx => ih fun t k ht => h t k (.later trivial hx ht)

theorem failsBare_each {xs : List Datum}
    (h : ∀ t k, InOrder below scope (fun j x => ∃ type, x.infer j.catalogue = .ok type) xs i t k →
      FailsBare (t.perform below) k) (last : Datum) :
    FailsBare (evalEach below scope last xs) i := by
  induction xs generalizing i last with
  | nil => exact failsBare_pure last i
  | cons x rest ih =>
    refine failsBare_get_bind ?_
    cases htype : x.infer i.catalogue with
    | error e => exact FailsBare.bind (failsBare_fail _ i) fun _ _ hok => by cases hok
    | ok type =>
      refine FailsBare.bind (failsBare_pure _ i) fun _ j hok => ?_
      cases hok
      refine FailsBare.bind (h _ _ (.here rest ⟨type, htype⟩)) fun value j hx => ?_
      exact ih (fun t k ht => h t k (.later ⟨type, htype⟩ hx ht)) value

theorem failsBare_branches {xs : List Datum}
    (h : ∀ t k, InBranches below scope xs i t k → FailsBare (t.perform below) k) :
    FailsBare (evalBranches below scope xs) i := by
  fun_induction evalBranches below scope xs generalizing i with
  | case1 condition branch rest ih =>
    refine FailsBare.bind (h _ _ (.condition i condition branch rest)) fun value j hvalue => ?_
    by_cases htrue : value.truthy = true
    · rw [if_pos htrue]
      exact h _ _ (.branch hvalue htrue)
    · rw [if_neg htrue]
      exact ih fun t k ht => h t k (.rest hvalue (by simpa using htrue) ht)
  | case2 last => exact h _ _ (.last i last)
  | case3 => exact failsBare_pure _ i

theorem failsBare_readScript (file : String) (i : Interpreter) : FailsBare (readScript file) i :=
  FailsBare.bind (failsBare_modify _ i) fun _ j _ =>
    failsBare_get_bind (failsBare_ofExcept _ _ j)

theorem failsBare_loadScript {folder file : String}
    (h : ∀ t k, InScript below folder file i t k → FailsBare (t.perform below) k) :
    FailsBare (loadScript below folder file) i := by
  refine FailsBare.bind (failsBare_readScript file i) fun content j hread => ?_
  obtain ⟨hcontent, rfl⟩ := eq_of_runFrom_readScript_ok hread
  refine FailsBare.bind (failsBare_pure _ _) fun scope k hscope => ?_
  cases hscope
  refine FailsBare.bind (failsBare_ofExcept _ _ _) fun tokens l htokens => ?_
  cases hscan : Token.scan file content with
  | error e =>
    rw [hscan] at htokens
    cases htokens
  | ok tokens =>
    rw [hscan] at htokens
    cases htokens
    refine FailsBare.bind (failsBare_each (fun t k ht => h t k (.expression hcontent hscan ht)) _)
      fun value k _ => ?_
    split
    · exact failsBare_fail _ k
    · exact failsBare_pure value k

theorem failsBare_fileArgument (folder : String) (arguments : List Datum) (i : Interpreter) :
    FailsBare (fileArgument folder arguments) i :=
  FailsBare.bind (failsBare_ofExcept _ _ i) fun _ j _ =>
    FailsBare.bind (Builtin.failsBare_display _ j) fun _ k _ => failsBare_pure _ k

theorem failsBare_runNative {f : Native} {arguments : List Datum}
    (h : ∀ t k, InNative below f arguments i t k → FailsBare (t.perform below) k) :
    FailsBare (runNative below f arguments) i := by
  cases f with
  | builtin b => exact Builtin.failsBare_run b arguments i
  | importFile owner folder =>
    refine FailsBare.bind (failsBare_fileArgument folder arguments i) fun file j hfile => ?_
    cases arguments with
    | nil => cases hfile
    | cons name rest =>
      cases hfile
      exact failsBare_loadScript fun t k ht => h t k (.imported ht)
  | watchFile owner folder =>
    refine FailsBare.bind (failsBare_fileArgument folder arguments i) fun file j hfile => ?_
    refine FailsBare.bind ?_ fun _ k _ =>
      FailsBare.bind (failsBare_modify _ k) fun _ l _ => failsBare_pure _ l
    rcases arguments with _ | ⟨name, _ | ⟨handler, rest⟩⟩
    · cases hfile
    · cases hfile
      exact FailsBare.bind (failsBare_loadScript fun t k ht => h t k (.watched ht))
        fun _ k _ => failsBare_pure _ k
    · cases hfile
      refine FailsBare.bind (failsBare_readScript _ i) fun content k hread => ?_
      obtain ⟨hcontent, rfl⟩ := eq_of_runFrom_readScript_ok hread
      exact FailsBare.bind (h _ _ (.handled hcontent)) fun _ l _ => failsBare_pure _ l
  | echo => exact failsBare_pure _ i
  | labelled name => exact failsBare_pure _ i

theorem failsBare_applyStep {function : Datum} {arguments : List Datum}
    (h : ∀ t k, InApply function arguments i t k → FailsBare (t.perform below) k) :
    FailsBare (applyStep below function arguments) i := by
  cases function
  case closure parameters body outer =>
    cases hbindings : callBindings parameters arguments with
    | error fault =>
      rw [applyStep_closure, hbindings]
      exact FailsBare.bind (failsBare_fail _ i) fun _ _ hok => by cases hok
    | ok bindings =>
      rw [applyStep_closure, hbindings]
      exact h _ _ (.body hbindings)
  case native f =>
    exact (h _ _ (.native f arguments i)).of_outcome (outcome_applyNative f arguments i)
  all_goals exact FailsBare.bind (Builtin.failsBare_display _ i) fun _ j _ => failsBare_fail _ j

theorem failsBare_evalDefinition {name : String} (hname : keyword? name = some .definition)
    {items : List Datum}
    (h : ∀ t k, InList below scope (.symbol name :: items) i t k → FailsBare (t.perform below) k) :
    FailsBare (evalDefinition below name scope items) i := by
  unfold evalDefinition
  split
  · exact FailsBare.bind (h _ _ (.definition hname _ _ i)) fun value j _ =>
      FailsBare.bind (failsBare_modify _ j) fun _ k _ => failsBare_pure _ k
  · exact FailsBare.bind (Builtin.failsBare_display _ i) fun _ j _ => failsBare_fail _ j
  · exact failsBare_fail _ i

theorem failsBare_evalList {items : List Datum}
    (h : ∀ t k, InList below scope items i t k → FailsBare (t.perform below) k) :
    FailsBare (evalList below scope items) i := by
  cases items with
  | nil => exact failsBare_pure _ i
  | cons head items =>
    cases hhead : headKeyword? head with
    | none =>
      rw [evalList_of_headKeyword? hhead, evalCall_eq_applyStep]
      refine FailsBare.bind (h _ _ (.item hhead (.here items trivial))) fun function j hf => ?_
      refine FailsBare.bind ?_ fun values k hvalues => ?_
      · exact failsBare_arguments fun t k ht => h t k (.item hhead (.later trivial hf ht))
      · exact failsBare_applyStep fun t k ht => h t k (.applied hhead hf hvalues ht)
    | some keyword =>
      obtain ⟨name, rfl, hname⟩ := eq_symbol_of_headKeyword? hhead
      rw [evalList_of_keyword? hname]
      cases keyword with
      | quote =>
        cases items with
        | nil => exact failsBare_fail _ i
        | cons x rest => exact failsBare_pure _ i
      | time =>
        cases items with
        | nil => exact failsBare_fail _ i
        | cons x rest =>
          exact (h _ _ (.timed hname x rest i)).of_outcome (outcome_evalTimed x rest i)
      | branch => exact failsBare_branches fun t k ht => h t k (.branch hname ht)
      | definition => exact failsBare_evalDefinition hname h
      | lambda =>
        unfold evalForm evalLambda
        dsimp only
        split
        · exact failsBare_pure _ i
        · exact failsBare_fail _ i
      | sequence => exact failsBare_sequence fun t k ht => h t k (.sequence hname ht)

/-! ## Whole activities -/

namespace Activity

/-- What an activity makes of a failure inside it. -/
def locate (t : Activity) (failure : Failure) : Failure :=
  match t.position? with
  | some position => failure.locate position
  | none => failure

end Activity

theorem failsWith_evalStep_list {position : Option Position} {items : List Datum}
    (h : (evalList below scope items).FailsWith i failure) :
    (evalStep below (.list position items) scope).FailsWith i
      (Activity.locate (.eval (.list position items) scope) failure) := by
  cases position with
  | none => exact h
  | some position =>
    change ((located position (evalList below scope items)).runFrom i).1 = _
    rw [runFrom_located, h]
    rfl

/-- What has been started fails for what has started it. -/
theorem Starts.fails {depth level : ℕ} {s : Activity} (h : Starts depth t i level s k)
    (hfails : (s.perform (evaluator level)).FailsWith k failure) :
    (t.perform (evaluator depth)).FailsWith i (t.locate failure) := by
  cases h with
  | list h => exact failsWith_evalStep_list (h.fails hfails)
  | apply h => exact InApply.fails h hfails
  | call h => exact h.fails hfails

theorem failsBare_evalStep {x : Datum} (hx : ∀ position items, x ≠ .list position items) :
    FailsBare (evalStep below x scope) i := by
  cases x
  case list position items => exact absurd rfl (hx position items)
  case symbol name =>
    refine failsBare_get_bind ?_
    split
    · exact failsBare_pure _ i
    · exact failsBare_fail _ i
  case host h => exact failsBare_fail _ i
  all_goals exact failsBare_pure _ i

/-- An activity in which nothing puts a position on a failure puts only its own one on it. -/
theorem Activity.eq_position? {depth : ℕ} {fault : Fault} {position : Option Position}
    (hbare : ∀ level s k, Starts depth t i level s k → FailsBare (s.perform (evaluator level)) k)
    (hfails : (t.perform (evaluator depth)).FailsWith i (.raised fault position)) :
    position = t.position? := by
  have hnone (h : FailsBare (t.perform (evaluator depth)) i) : position = none := by
    obtain ⟨_, heq⟩ := h _ hfails
    cases heq
    rfl
  cases t with
  | call f arguments => exact hnone (failsBare_runNative fun s k h => hbare _ s k (.call h))
  | apply function arguments =>
    cases depth with
    | zero => cases hfails
    | succ depth => exact hnone (failsBare_applyStep fun s k h => hbare _ s k (.apply h))
  | eval x scope =>
    cases depth with
    | zero => cases hfails
    | succ depth =>
      by_cases hx : ∃ own items, x = .list own items
      · obtain ⟨own, items, rfl⟩ := hx
        have hitems : FailsBare (evalList (evaluator depth) scope items) i :=
          failsBare_evalList fun s k h => hbare _ s k (.list h)
        cases own with
        | none => exact hnone hitems
        | some own =>
          change ((located own (evalList (evaluator depth) scope items)).runFrom i).1 = _ at hfails
          rw [runFrom_located] at hfails
          cases hrun : ((evalList (evaluator depth) scope items).runFrom i).1 with
          | ok value =>
            rw [hrun] at hfails
            cases hfails
          | error failure =>
            obtain ⟨inner, rfl⟩ := hitems failure hrun
            rw [hrun] at hfails
            cases hfails
            rfl
      · have hother : ∀ own items, x ≠ .list own items := fun own items h => hx ⟨own, items, h⟩
        rw [hnone (failsBare_evalStep hother)]
        cases x
        case list own items => exact absurd rfl (hother own items)
        all_goals rfl

end Evaluation

end Reckoner

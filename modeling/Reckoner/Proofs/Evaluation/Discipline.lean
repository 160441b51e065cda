import Reckoner.Proofs.Evaluation.Location
import Reckoner.Proofs.Validation

/-!
# What every part of an evaluation has, the evaluation has

A `Discipline` is a property of running an action from a state.  The basic actions have it, and it
is passed on when actions are composed; the one action that need not have it is switching the
tracing.  So an evaluation that does not switch the tracing has every such property: `holds_perform`
is one step inward, from the activities that an activity starts, and `holds_of_leavesTracing` a
whole evaluation.

Two parts of the state are kept apart.  `Interpreter.bare` is what programs can see, and the rest is
the traces, the switch for durations and the output, which are written and never read.
-/

namespace Reckoner

namespace Interpreter

/-- The state without the traces, the switch for durations and the output. -/
def bare (i : Interpreter) : Interpreter :=
  { i with printsDurations := false, traces := #[], tracing := none, output := "" }

/-- The state with the traces, the switch for durations and the output of another one. -/
def retraced (i k : Interpreter) : Interpreter :=
  { i with
    printsDurations := k.printsDurations
    traces := k.traces
    tracing := k.tracing
    output := k.output }

theorem retraced_eq {i j : Interpreter} (h : i.bare = j.bare) : i.retraced j = j := by
  have hboth : i.bare.retraced j = j.bare.retraced j := by rw [h]
  exact hboth

/-- Note in a trace that a call ends.  A call without a name is not recorded. -/
def ending (i : Interpreter) (trace : Option ℕ) (name : Option String) (category : String) :
    Interpreter :=
  match trace, name with
  | some trace, some name => i.record trace ⟨name, category, .ending⟩
  | _, _ => i

end Interpreter

namespace Action

variable {α : Type}

theorem ext_runFrom {x y : Action α} (h : ∀ i, x.runFrom i = y.runFrom i) : x = y := funext h

/-- Run an action as a call that the open trace records. -/
def recorded (name : Option String) (category : String) (x : Action α) : Action α := do
  match (← get).tracing, name with
  | some trace, some name => traced trace name category x
  | _, _ => x

/-- Print how long a call took, if that is wanted. -/
def printDuration (label : String) : Action Unit := do
  if (← get).printsDurations then printLine ("trace DURATION " ++ label)

theorem runFrom_printDuration (label : String) (i : Interpreter) :
    (printDuration label).runFrom i =
      (.ok (), if i.printsDurations then
        { i with output := i.output ++ ("trace DURATION " ++ label ++ "\n") } else i) := by
  rw [printDuration, runFrom_get_bind]
  split <;> rfl

/-- The beginning and the end are noted in one trace, whatever the outcome. -/
theorem runFrom_recorded (name : Option String) (category : String) (x : Action α)
    (i : Interpreter) :
    (recorded name category x).runFrom i =
      ((x.runFrom (i.beginning name category)).1,
        (x.runFrom (i.beginning name category)).2.ending i.tracing name category) := by
  unfold recorded Interpreter.beginning Interpreter.ending
  rw [runFrom_get_bind]
  cases i.tracing with
  | none => rfl
  | some trace =>
    cases name with
    | none => rfl
    | some name =>
      dsimp only
      rw [traced, runFrom_modify_bind, runFrom_andThenAlways]

end Action

namespace Evaluation

open Reckoner.Action

variable {below : Evaluator}

theorem applyNative_eq (f : Native) (arguments : List Datum) :
    applyNative below f arguments = (do
      let name := ((← get).catalogue.findNative? f).map (·.name)
      recorded name "builtin" (runNative below f arguments)) := by
  refine ext_runFrom fun i => ?_
  unfold applyNative recorded
  rw [runFrom_get_bind, runFrom_get_bind, runFrom_get_bind]
  cases i.tracing with
  | none => rfl
  | some trace => cases i.catalogue.findNative? f <;> rfl

theorem evalTimed_cons (scope : ScopeId) (x : Datum) (rest : List Datum) :
    evalTimed below scope (x :: rest) = (do
      let label ← display x
      let value ← recorded (some label) "scm" (below.eval x scope)
      printDuration label
      return value) := by
  have hafter (label : String) : (fun value => do
      if (← get).printsDurations then printLine ("trace DURATION " ++ label)
      return value : Datum → Action Datum) =
        fun value => printDuration label >>= fun _ => pure value := by
    refine funext fun value => ext_runFrom fun i => ?_
    unfold printDuration
    rw [runFrom_get_bind, bind_assoc, runFrom_get_bind]
    cases i.printsDurations <;> rfl
  refine ext_runFrom fun i => ?_
  have hdisplay : (display x).runFrom i = (.ok (i.display x), i) := rfl
  rw [evalTimed, runFrom_bind_ok hdisplay, runFrom_get_bind, runFrom_bind_ok hdisplay, recorded,
    bind_assoc, runFrom_get_bind, ← hafter]
  cases i.tracing <;> rfl

end Evaluation

/-- A property of running an action from a state that composition passes on. -/
structure Discipline where
  Holds : {α : Type} → Action α → Interpreter → Prop
  holds_pure {α : Type} (a : α) (i : Interpreter) : Holds (pure a) i
  holds_throw {α : Type} (failure : Failure) (i : Interpreter) :
    Holds (throw failure : Action α) i
  holds_bind {α β : Type} {x : Action α} {f : α → Action β} {i : Interpreter} :
    Holds x i → (∀ a j, x.runFrom i = (.ok a, j) → Holds (f a) j) → Holds (x >>= f) i
  holds_located {α : Type} {x : Action α} {i : Interpreter} (position : Position) :
    Holds x i → Holds (Action.located position x) i
  /-- Reading the state, except for the part that is only written. -/
  holds_get_bind {β : Type} {f : Interpreter → Action β} {i : Interpreter} :
    (∀ j k : Interpreter, f (j.retraced k) = f j) → Holds (f i) i → Holds (get >>= f) i
  /-- Changing the state, except for the part that is only written. -/
  holds_modify {update : Interpreter → Interpreter} (i : Interpreter) :
    (∀ j k : Interpreter, update (j.retraced k) = (update j).retraced k) →
      Holds (modify update : Action Unit) i
  holds_print (text : String) (i : Interpreter) : Holds (Action.print text) i
  holds_printDuration (label : String) (i : Interpreter) : Holds (Action.printDuration label) i
  /-- Switching the printing of durations. -/
  holds_switch (on : Bool) (i : Interpreter) :
    Holds (modify fun j => { j with
      settings := { j.settings with tracePrint := on }, printsDurations := on } : Action Unit) i
  holds_recorded {α : Type} {x : Action α} {i : Interpreter} (name : Option String)
    (category : String) :
    Holds x (i.beginning name category) → Holds (Action.recorded name category x) i

namespace Discipline

open Reckoner.Action Reckoner.Evaluation

variable (D : Discipline) (i : Interpreter)

/-! ## Basic actions -/

theorem holds_fail {α : Type} (fault : Fault) : D.Holds (fail fault : Action α) i :=
  D.holds_throw _ i

theorem holds_ofExcept {α ε : Type} (fault : ε → Fault) (result : Except ε α) :
    D.Holds (ofExcept fault result) i := by
  cases result with
  | ok a => exact D.holds_pure a i
  | error e => exact D.holds_fail i _

theorem holds_printLine (text : String) : D.Holds (printLine text) i := D.holds_print _ i

theorem holds_display (value : Datum) : D.Holds (display value) i :=
  D.holds_get_bind (fun _ _ => rfl) (D.holds_pure _ i)

theorem holds_forIn {γ : Type} {xs : List γ} {body : γ → PUnit → Action (ForInStep PUnit)}
    (h : ∀ c ∈ xs, ∀ j, D.Holds (body c ⟨⟩) j) : D.Holds (forIn xs ⟨⟩ body) i := by
  induction xs generalizing i with
  | nil => exact D.holds_pure _ i
  | cons c xs ih =>
    rw [List.forIn_cons]
    refine D.holds_bind (h c List.mem_cons_self i) fun step j _ => ?_
    cases step with
    | done => exact D.holds_pure _ j
    | yield => exact ih j fun d hd => h d (List.mem_cons_of_mem c hd)

/-! ## Builtins -/

theorem holds_printEntry (c : Catalogue) (entry : String) :
    D.Holds (Builtin.printEntry c entry) i := by
  unfold Builtin.printEntry
  split
  · exact D.holds_bind (D.holds_printLine i _) fun _ j _ => D.holds_printLine j _
  · split
    · exact D.holds_fail i _
    · exact D.holds_printLine i _

theorem holds_printOverview : D.Holds Builtin.printOverview i := by
  refine D.holds_get_bind (fun _ _ => rfl) (D.holds_bind (D.holds_printLine i _) fun _ j _ => ?_)
  refine D.holds_bind (D.holds_forIn j fun entry _ k => ?_) fun _ k _ => ?_
  · exact D.holds_bind (D.holds_printEntry k _ entry) fun _ l _ => D.holds_pure _ l
  · exact D.holds_bind (D.holds_printLine k _) fun _ l _ => D.holds_printLine l _

theorem holds_printTopic (d : Declaration) : D.Holds (Builtin.printTopic d) i := by
  have hline {action : Action Unit} {text : String} (h : ∀ j, D.Holds action j)
      (j : Interpreter) : D.Holds (printLine text >>= fun _ => action) j :=
    D.holds_bind (D.holds_printLine j text) fun _ k _ => h k
  refine hline (hline (hline (hline (hline (hline (hline fun j => ?_)))))) i
  refine D.holds_bind (D.holds_forIn j fun p _ k => ?_) fun _ k _ => D.holds_printLine k _
  exact D.holds_bind (D.holds_printLine k _) fun _ l _ => D.holds_pure _ l

theorem holds_explain (value : Datum) : D.Holds (Builtin.explain value) i := by
  unfold Builtin.explain
  split
  · exact D.holds_printOverview i
  · refine D.holds_get_bind (fun _ _ => rfl) ?_
    split
    · exact D.holds_printTopic i _
    · exact D.holds_fail i _

/-- Every setting but the one that switches the tracing. -/
theorem holds_writeSetting {name : String} (hname : name ≠ "Trace") (on : Bool) :
    D.Holds (Builtin.writeSetting name on) i := by
  unfold Builtin.writeSetting
  rw [if_neg hname]
  split_ifs
  · exact D.holds_modify i fun _ _ => rfl
  · exact D.holds_switch on i
  · exact D.holds_fail i _
  · exact D.holds_fail i _

variable {arguments : List Datum}

theorem holds_changeSettings (h : ∀ name value rest, arguments = name :: value :: rest →
    i.display name ≠ "Trace") : D.Holds (Builtin.changeSettings arguments) i := by
  rcases arguments with _ | ⟨name, _ | ⟨value, rest⟩⟩
  · exact D.holds_get_bind (fun _ _ => rfl) (D.holds_pure _ i)
  · refine D.holds_bind (D.holds_display i name) fun name j _ => ?_
    exact D.holds_get_bind (fun _ _ => rfl) (D.holds_ofExcept j _ _)
  · refine D.holds_bind (D.holds_display i name) fun text j hrun => ?_
    cases hrun
    refine D.holds_bind (D.holds_writeSetting _ (h name value rest rfl) _) fun _ k _ => ?_
    exact D.holds_pure _ k

theorem holds_environmentVariable : D.Holds (Builtin.environmentVariable arguments) i := by
  unfold Builtin.environmentVariable
  split
  · exact D.holds_fail i _
  · exact D.holds_bind (D.holds_display i _) fun _ j _ =>
      D.holds_get_bind (fun _ _ => rfl) (D.holds_pure _ j)
  · exact D.holds_bind (D.holds_display i _) fun _ j _ =>
      D.holds_get_bind (fun _ _ => rfl) (D.holds_pure _ j)

theorem holds_printValues (values : List Datum) : D.Holds (Builtin.printValues values) i := by
  refine D.holds_bind (D.holds_forIn i fun value _ j => ?_) fun _ j _ => ?_
  · refine D.holds_bind (D.holds_display j value) fun _ k _ => ?_
    exact D.holds_bind (D.holds_print _ k) fun _ l _ => D.holds_pure _ l
  · exact D.holds_bind (D.holds_printLine j _) fun _ k _ => D.holds_pure _ k

/-- A builtin that does not switch the tracing. -/
theorem holds_run (b : Builtin) (h : b = .settings → ∀ name value rest,
    arguments = name :: value :: rest → i.display name ≠ "Trace") :
    D.Holds (b.run arguments) i := by
  unfold Builtin.run
  split
  · exact D.holds_ofExcept i _ _
  · split
    · exact D.holds_bind (D.holds_explain i _) fun _ j _ => D.holds_pure _ j
    · refine D.holds_bind (D.holds_ofExcept i _ _) fun _ j _ => ?_
      exact D.holds_bind (D.holds_display j _) fun _ k _ => D.holds_fail k _
    · exact D.holds_changeSettings i (h rfl)
    · exact D.holds_printValues i arguments
    · exact D.holds_environmentVariable i

/-! ## One layer -/

variable {D i} {below : Evaluator} {scope : ScopeId}

theorem holds_arguments {xs : List Datum}
    (h : ∀ t k, InOrder below scope (fun _ _ => True) xs i t k → D.Holds (t.perform below) k) :
    D.Holds (evalArguments below scope xs) i := by
  induction xs generalizing i with
  | nil => exact D.holds_pure _ i
  | cons x rest ih =>
    refine D.holds_bind (h _ _ (.here rest trivial)) fun value j hx => ?_
    refine D.holds_bind (ih fun t k ht => h t k (.later trivial hx ht)) fun values k _ => ?_
    exact D.holds_pure _ k

theorem holds_sequence {xs : List Datum}
    (h : ∀ t k, InOrder below scope (fun _ _ => True) xs i t k → D.Holds (t.perform below) k) :
    D.Holds (evalSequence below scope xs) i := by
  induction xs generalizing i with
  | nil => exact D.holds_pure _ i
  | cons x rest ih =>
    have hx := h _ _ (.here rest trivial)
    cases rest with
    | nil => exact hx
    | cons y rest =>
      exact D.holds_bind hx fun value j hx => ih fun t k ht => h t k (.later trivial hx ht)

theorem holds_each {xs : List Datum}
    (h : ∀ t k, InOrder below scope (fun j x => ∃ type, x.infer j.catalogue = .ok type) xs i t k →
      D.Holds (t.perform below) k) (last : Datum) :
    D.Holds (evalEach below scope last xs) i := by
  induction xs generalizing i last with
  | nil => exact D.holds_pure last i
  | cons x rest ih =>
    refine D.holds_get_bind (fun _ _ => rfl) ?_
    cases htype : x.infer i.catalogue with
    | error e => exact D.holds_bind (D.holds_fail i _) fun _ _ hok => by cases hok
    | ok type =>
      refine D.holds_bind (D.holds_pure _ i) fun _ j hok => ?_
      cases hok
      refine D.holds_bind (h _ _ (.here rest ⟨type, htype⟩)) fun value j hx => ?_
      exact ih (fun t k ht => h t k (.later ⟨type, htype⟩ hx ht)) value

theorem holds_branches {xs : List Datum}
    (h : ∀ t k, InBranches below scope xs i t k → D.Holds (t.perform below) k) :
    D.Holds (evalBranches below scope xs) i := by
  fun_induction evalBranches below scope xs generalizing i with
  | case1 condition branch rest ih =>
    refine D.holds_bind (h _ _ (.condition i condition branch rest)) fun value j hvalue => ?_
    by_cases htrue : value.truthy = true
    · rw [if_pos htrue]
      exact h _ _ (.branch hvalue htrue)
    · rw [if_neg htrue]
      exact ih fun t k ht => h t k (.rest hvalue (by simpa using htrue) ht)
  | case2 last => exact h _ _ (.last i last)
  | case3 => exact D.holds_pure _ i

variable (D i) in
theorem holds_readScript (file : String) : D.Holds (readScript file) i :=
  D.holds_bind (D.holds_modify i fun _ _ => rfl) fun _ j _ =>
    D.holds_get_bind (fun _ _ => rfl) (D.holds_ofExcept j _ _)

variable (D i) in
theorem holds_newScope (s : Scope) : D.Holds (newScope s) i := by
  refine D.holds_get_bind (fun _ _ => rfl) ?_
  exact D.holds_bind (D.holds_modify i fun _ _ => rfl) fun _ j _ => D.holds_pure _ j

theorem holds_loadScript {folder file : String}
    (h : ∀ t k, InScript below folder file i t k → D.Holds (t.perform below) k) :
    D.Holds (loadScript below folder file) i := by
  refine D.holds_bind (D.holds_readScript i file) fun content j hread => ?_
  obtain ⟨hcontent, rfl⟩ := eq_of_runFrom_readScript_ok hread
  refine D.holds_bind (D.holds_newScope _ _) fun scope k hscope => ?_
  cases hscope
  refine D.holds_bind (D.holds_ofExcept _ _ _) fun tokens l htokens => ?_
  cases hscan : Token.scan file content with
  | error e =>
    rw [hscan] at htokens
    cases htokens
  | ok tokens =>
    rw [hscan] at htokens
    cases htokens
    refine D.holds_bind (holds_each (fun t k ht => h t k (.expression hcontent hscan ht)) _)
      fun value k _ => ?_
    split
    · exact D.holds_fail k _
    · exact D.holds_pure value k

variable (D i) in
theorem holds_fileArgument (folder : String) (arguments : List Datum) :
    D.Holds (fileArgument folder arguments) i :=
  D.holds_bind (D.holds_ofExcept i _ _) fun _ j _ =>
    D.holds_bind (D.holds_display j _) fun _ k _ => D.holds_pure _ k

theorem holds_runNative {f : Native}
    (h : ∀ t k, InNative below f arguments i t k → D.Holds (t.perform below) k)
    (hown : f = .builtin .settings → ∀ name value rest, arguments = name :: value :: rest →
      i.display name ≠ "Trace") : D.Holds (runNative below f arguments) i := by
  cases f with
  | builtin b => exact D.holds_run i b fun hb => hown (hb ▸ rfl)
  | importFile owner folder =>
    refine D.holds_bind (D.holds_fileArgument i folder arguments) fun file j hfile => ?_
    cases arguments with
    | nil => cases hfile
    | cons name rest =>
      cases hfile
      exact holds_loadScript fun t k ht => h t k (.imported ht)
  | watchFile owner folder =>
    refine D.holds_bind (D.holds_fileArgument i folder arguments) fun file j hfile => ?_
    refine D.holds_bind ?_ fun _ k _ =>
      D.holds_bind (D.holds_modify k fun _ _ => rfl) fun _ l _ => D.holds_pure _ l
    rcases arguments with _ | ⟨name, _ | ⟨handler, rest⟩⟩
    · cases hfile
    · cases hfile
      exact D.holds_bind (holds_loadScript fun t k ht => h t k (.watched ht))
        fun _ k _ => D.holds_pure _ k
    · cases hfile
      refine D.holds_bind (D.holds_readScript i _) fun content k hread => ?_
      obtain ⟨hcontent, rfl⟩ := eq_of_runFrom_readScript_ok hread
      exact D.holds_bind (h _ _ (.handled hcontent)) fun _ l _ => D.holds_pure _ l
  | echo => exact D.holds_pure _ i
  | labelled name => exact D.holds_pure _ i

theorem holds_applyStep {function : Datum}
    (h : ∀ t k, InApply function arguments i t k → D.Holds (t.perform below) k) :
    D.Holds (applyStep below function arguments) i := by
  cases function
  case closure parameters body outer =>
    cases hbindings : callBindings parameters arguments with
    | error fault =>
      rw [applyStep_closure, hbindings]
      exact D.holds_bind (D.holds_fail i _) fun _ _ hok => by cases hok
    | ok bindings =>
      rw [applyStep_closure, hbindings]
      refine D.holds_bind (D.holds_pure _ i) fun _ j hok => ?_
      cases hok
      refine D.holds_bind (D.holds_newScope i _) fun scope k hscope => ?_
      cases hscope
      exact h _ _ (.body hbindings)
  case native f =>
    rw [applyStep, applyNative_eq]
    refine D.holds_get_bind (fun _ _ => rfl) ?_
    exact D.holds_recorded _ _ (h _ _ (.native f arguments i))
  all_goals exact D.holds_bind (D.holds_display i _) fun _ j _ => D.holds_fail j _

theorem holds_evalDefinition {name : String} (hname : keyword? name = some .definition)
    {items : List Datum}
    (h : ∀ t k, InList below scope (.symbol name :: items) i t k → D.Holds (t.perform below) k) :
    D.Holds (evalDefinition below name scope items) i := by
  unfold evalDefinition
  split
  · refine D.holds_bind (h _ _ (.definition hname _ _ i)) fun value j _ => ?_
    exact D.holds_bind (D.holds_modify j fun _ _ => rfl) fun _ k _ => D.holds_pure _ k
  · exact D.holds_bind (D.holds_display i _) fun _ j _ => D.holds_fail j _
  · exact D.holds_fail i _

theorem holds_evalTimed {name : String} (hname : keyword? name = some .time) {items : List Datum}
    (h : ∀ t k, InList below scope (.symbol name :: items) i t k → D.Holds (t.perform below) k) :
    D.Holds (evalTimed below scope items) i := by
  cases items with
  | nil => exact D.holds_fail i _
  | cons x rest =>
    rw [evalTimed_cons]
    refine D.holds_bind (D.holds_display i x) fun label j hlabel => ?_
    cases hlabel
    refine D.holds_bind (D.holds_recorded _ _ (h _ _ (.timed hname x rest i))) fun value j _ => ?_
    exact D.holds_bind (D.holds_printDuration _ j) fun _ k _ => D.holds_pure value k

theorem holds_evalList {items : List Datum}
    (h : ∀ t k, InList below scope items i t k → D.Holds (t.perform below) k) :
    D.Holds (evalList below scope items) i := by
  cases items with
  | nil => exact D.holds_pure _ i
  | cons head items =>
    cases hhead : headKeyword? head with
    | none =>
      rw [evalList_of_headKeyword? hhead, evalCall_eq_applyStep]
      refine D.holds_bind (h _ _ (.item hhead (.here items trivial))) fun function j hf => ?_
      refine D.holds_bind ?_ fun values k hvalues => ?_
      · exact holds_arguments fun t k ht => h t k (.item hhead (.later trivial hf ht))
      · exact holds_applyStep fun t k ht => h t k (.applied hhead hf hvalues ht)
    | some keyword =>
      obtain ⟨name, rfl, hname⟩ := eq_symbol_of_headKeyword? hhead
      rw [evalList_of_keyword? hname]
      cases keyword with
      | quote =>
        cases items with
        | nil => exact D.holds_fail i _
        | cons x rest => exact D.holds_pure _ i
      | time => exact holds_evalTimed hname h
      | branch => exact holds_branches fun t k ht => h t k (.branch hname ht)
      | definition => exact holds_evalDefinition hname h
      | lambda =>
        unfold evalForm evalLambda
        dsimp only
        split
        · exact D.holds_pure _ i
        · exact D.holds_fail i _
      | sequence => exact holds_sequence fun t k ht => h t k (.sequence hname ht)

theorem holds_evalStep {x : Datum}
    (h : ∀ position items t k, x = .list position items → InList below scope items i t k →
      D.Holds (t.perform below) k) : D.Holds (evalStep below x scope) i := by
  cases x
  case list position items =>
    have hitems : D.Holds (evalList below scope items) i :=
      holds_evalList fun t k ht => h position items t k rfl ht
    cases position with
    | none => exact hitems
    | some position => exact D.holds_located position hitems
  case symbol name =>
    refine D.holds_get_bind (fun _ _ => rfl) ?_
    split
    · exact D.holds_pure _ i
    · exact D.holds_fail i _
  case host h => exact D.holds_fail i _
  all_goals exact D.holds_pure _ i

end Discipline

/-! ## Whole evaluations -/

namespace Evaluation

/-- An activity that calls `settings` to switch the tracing. -/
def Activity.SwitchesTracing (t : Activity) (i : Interpreter) : Prop :=
  ∃ name value rest, t = .call (.builtin .settings) (name :: value :: rest) ∧
    i.display name = "Trace"

/-- While an activity goes on, `settings` is not called to switch the tracing. -/
def LeavesTracing (depth : ℕ) (t : Activity) (i : Interpreter) : Prop :=
  ∀ level s k, Reaches depth t i level s k → ¬ s.SwitchesTracing k

variable {depth : ℕ} {t : Activity} {i : Interpreter}

theorem LeavesTracing.starts (h : LeavesTracing depth t i) {level : ℕ} {s : Activity}
    {k : Interpreter} (hstarts : Starts depth t i level s k) : LeavesTracing level s k :=
  fun bottom u l hreaches => h bottom u l (.step hstarts hreaches)

/-- To leave the tracing alone, an activity must do so itself and start nothing that does not. -/
theorem leavesTracing_of_starts (hown : ¬ t.SwitchesTracing i)
    (h : ∀ level s k, Starts depth t i level s k → LeavesTracing level s k) :
    LeavesTracing depth t i := by
  intro level s k hreaches
  cases hreaches with
  | refl => exact hown
  | step hstarts hreaches => exact h _ _ _ hstarts _ _ _ hreaches

theorem not_switchesTracing_eval (x : Datum) (scope : ScopeId) (i : Interpreter) :
    ¬ Activity.SwitchesTracing (.eval x scope) i := by
  rintro ⟨_, _, _, h, _⟩
  cases h

variable {scope : ScopeId}

/-- What is no list starts nothing. -/
theorem leavesTracing_atom {x : Datum} (hx : ∀ position items, x ≠ .list position items) :
    LeavesTracing depth (.eval x scope) i := by
  refine leavesTracing_of_starts (not_switchesTracing_eval x scope i) fun level s k hstarts => ?_
  cases hstarts with
  | list => exact absurd rfl (hx _ _)

theorem leavesTracing_builtin {b : Builtin} (hb : b ≠ .settings) (arguments : List Datum) :
    LeavesTracing depth (.call (.builtin b) arguments) i := by
  refine leavesTracing_of_starts ?_ fun level s k hstarts => ?_
  · rintro ⟨_, _, _, h, _⟩
    cases h
    exact hb rfl
  · cases hstarts with
    | call h => cases h

/-- A call of a builtin by its name, with arguments that are no lists. -/
theorem leavesTracing_call {name : String} {b : Builtin} (hkeyword : keyword? name = none)
    (hname : i.scopes.lookup scope name = some (.native (.builtin b))) (hb : b ≠ .settings)
    {arguments : List Datum}
    (harguments : ∀ x ∈ arguments, ∀ position items, x ≠ .list position items)
    (position : Option Position) :
    LeavesTracing depth (.eval (.list position (.symbol name :: arguments)) scope) i := by
  refine leavesTracing_of_starts (not_switchesTracing_eval _ scope i) fun level s k hstarts => ?_
  cases hstarts with
  | list h =>
    cases h with
    | item _ h =>
      obtain ⟨x, rfl⟩ := h.eq_eval
      refine leavesTracing_atom ?_
      rcases List.mem_cons.1 h.mem with rfl | hx
      · exact fun _ _ => Datum.noConfusion
      · exact harguments x hx
    | applied _ hfunction _ h =>
      cases level with
      | zero => cases hfunction
      | succ level =>
        cases (runFrom_evalStep_bound (evaluator level) hname).symm.trans hfunction
        cases h with
        | native => exact leavesTracing_builtin hb _
    | timed hform => cases hkeyword.symm.trans hform
    | branch hform => cases hkeyword.symm.trans hform
    | definition hform => cases hkeyword.symm.trans hform
    | sequence hform => cases hkeyword.symm.trans hform

/-- An expression that is timed leaves the tracing alone if it does so when its beginning is
noted. -/
theorem leavesTracing_time {x : Datum}
    (h : LeavesTracing depth (.eval x scope) (i.beginning (some (i.display x)) "scm"))
    (position : Option Position) (rest : List Datum) :
    LeavesTracing (depth + 1) (.eval (.list position (.symbol "time" :: x :: rest)) scope) i := by
  refine leavesTracing_of_starts (not_switchesTracing_eval _ scope i) fun level s k hstarts => ?_
  cases hstarts with
  | list hlist =>
    cases hlist with
    | item hhead => cases hhead
    | applied hhead => cases hhead
    | timed => exact h
    | branch hform => cases hform
    | definition hform => cases hform
    | sequence hform => cases hform

end Evaluation

namespace Discipline

open Reckoner.Evaluation

variable {D : Discipline} {depth : ℕ} {t : Activity} {i : Interpreter}

/-- What the activities that it starts have, an activity has. -/
theorem holds_perform (hown : ¬ t.SwitchesTracing i)
    (h : ∀ level s k, Starts depth t i level s k → D.Holds (s.perform (evaluator level)) k) :
    D.Holds (t.perform (evaluator depth)) i := by
  cases t with
  | call f arguments =>
    refine holds_runNative (fun s k hs => h _ s k (.call hs)) ?_
    rintro rfl name value rest rfl hname
    exact hown ⟨name, value, rest, rfl, hname⟩
  | apply function arguments =>
    cases depth with
    | zero => exact D.holds_throw _ i
    | succ depth => exact holds_applyStep fun s k hs => h _ s k (.apply hs)
  | eval x scope =>
    cases depth with
    | zero => exact D.holds_throw _ i
    | succ depth =>
      refine holds_evalStep fun position items s k hx hs => ?_
      subst hx
      exact h _ s k (.list hs)

/-- An activity that leaves the tracing alone has every discipline. -/
theorem holds_of_leavesTracing (h : LeavesTracing depth t i) :
    D.Holds (t.perform (evaluator depth)) i := by
  -- what is started ranks lower
  induction hrank : t.rank depth using Nat.strong_induction_on generalizing depth t i with
  | _ rank ih =>
    refine holds_perform (h _ _ _ (.refl depth t i)) fun level s k hstarts => ?_
    exact ih _ (hrank ▸ hstarts.rank_lt) (h.starts hstarts) rfl

end Discipline

end Reckoner

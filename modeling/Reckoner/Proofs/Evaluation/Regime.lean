import Reckoner.Proofs.Builtin.Run

/-!
# What evaluation keeps

A `Regime` is an invariant of states together with the code that may be evaluated in a scope and the
data that may be values, both of which may depend on the state.  It says what has to be known about
each thing that an evaluation can do: define a variable, open a scope for a call or for a file, ask
for a file, register a watched file.

`evaluator_keeps` says that evaluation then keeps the regime, whatever the outcome, and that its
value is one of the regime in the state where it ends.  The proof has one lemma for each function of
the evaluation, for any evaluation of what is below, and then goes by induction on the depth.
-/

namespace Reckoner

open Reckoner.Action Interpreter

/-- Have a file loaded again when it changes. -/
def Interpreter.register (i : Interpreter) (watch : Watch) : Interpreter :=
  { i with watches := i.watches ++ [watch] }

/-- An invariant of states, with the code and the values that it admits, closed under what
evaluation does. -/
structure Regime where
  Holds : Interpreter → Prop
  /-- How a state may follow on another one while code of a scope is evaluated; without a scope
  there are no definitions outside the scopes that are opened. -/
  Step : Option ScopeId → Interpreter → Interpreter → Prop
  code : Interpreter → ScopeId → Datum → Prop
  value : Interpreter → Datum → Prop
  /-- Whether files may be loaded. -/
  loads : Prop
  step_refl (target : Option ScopeId) (i : Interpreter) : Step target i i
  step_trans {target : Option ScopeId} {i j k : Interpreter} :
    Step target i j → Step target j k → Step target i k
  step_widen {i j : Interpreter} (target : Option ScopeId) : Step none i j → Step target i j
  holds_of_step {target : Option ScopeId} {i j : Interpreter} : Step target i j → Holds i → Holds j
  code_of_step {target : Option ScopeId} {i j : Interpreter} {scope : ScopeId} {x : Datum} :
    Step target i j → code i scope x → code j scope x
  value_of_step {target : Option ScopeId} {i j : Interpreter} {d : Datum} :
    Step target i j → value i d → value j d
  value_closed (i : Interpreter) : DataClosed (value i)
  value_erase {i : Interpreter} {scope : ScopeId} {d : Datum} : code i scope d → value i d.erase
  value_closure {i : Interpreter} {scope : ScopeId} {parameters body : Datum} :
    code i scope parameters → code i scope body → value i (.closure parameters.erase body scope)
  value_bound {i : Interpreter} {id : ScopeId} {scope : Scope} {name : String} {d : Datum} :
    Holds i → i.scopes[id]? = some scope → (name, d) ∈ scope.bindings → value i d
  code_item {i : Interpreter} {scope : ScopeId} {position : Option Position} {items : List Datum}
    {item : Datum} : code i scope (.list position items) → item ∈ items → code i scope item
  loads_of_loader {i : Interpreter} {f : Native} : value i (.native f) → f.isLoader = true → loads
  step_still {target : Option ScopeId} {i j : Interpreter} : Still i j → Step target i j
  step_define {i : Interpreter} {scope : ScopeId} {x d : Datum} (name : String) :
    Holds i → code i scope x → value i d → Step (some scope) i (i.define scope name d)
  step_request {target : Option ScopeId} (i : Interpreter) (file : String) :
    loads → Step target i (i.request file)
  step_register {target : Option ScopeId} {i : Interpreter} {watch : Watch} :
    (∀ handler, watch.handler = some handler → value i handler) →
      Step target i (i.register watch)
  /-- A call opens a scope, in which the body is code. -/
  holds_call {i : Interpreter} {parameters body : Datum} {outer : ScopeId} {bindings : Bindings} :
    Holds i → value i (.closure parameters body outer) →
      (∀ name d, (name, d) ∈ bindings → value i d) →
        Holds (i.openCall bindings outer) ∧
          code (i.openCall bindings outer) i.scopes.size body
  step_call {target : Option ScopeId} {i j : Interpreter} {parameters body : Datum}
    {outer : ScopeId} {bindings : Bindings} :
    Holds i → value i (.closure parameters body outer) →
      (∀ name d, (name, d) ∈ bindings → value i d) →
        Step (some i.scopes.size) (i.openCall bindings outer) j → Step target i j
  /-- A file opens a scope, in which what is read from it is code. -/
  holds_script {i : Interpreter} (folder file : String) :
    loads → Holds i → Holds ((i.request file).openScript folder file)
  code_script {i : Interpreter} {file content : String} {tokens : List Token} (folder : String) :
    loads → Holds i → Token.scan file content = .ok tokens →
      ∀ x ∈ (Program.ofTokens tokens).expressions,
        code ((i.request file).openScript folder file) i.scopes.size x
  step_script {target : Option ScopeId} {i j : Interpreter} {folder file : String} :
    loads → Holds i → Step (some i.scopes.size) ((i.request file).openScript folder file) j →
      Step target i j

variable {r : Regime} {target : Option ScopeId} {i : Interpreter}

instance : IsPreorder Interpreter (r.Step target) where
  refl := r.step_refl target
  trans _ _ _ := r.step_trans

/-- What leaves all but the output, the traces and the settings alone keeps every regime. -/
theorem Action.Runs.keeps {α : Type} {x : Action α} {V : α → Prop} (h : Runs Still V x i) :
    Leads (r.Step target) (fun _ => V) x i :=
  h.mono r.step_still

/-- An evaluation that keeps a regime. -/
structure Evaluator.Keeps (below : Evaluator) (r : Regime) : Prop where
  eval {i : Interpreter} {scope : ScopeId} {x : Datum} (hi : r.Holds i) (hx : r.code i scope x) :
    Leads (r.Step (some scope)) r.value (below.eval x scope) i
  apply {i : Interpreter} {f : Datum} {arguments : List Datum} (hi : r.Holds i)
    (hf : r.value i f) (hargs : ∀ a ∈ arguments, r.value i a) :
    Leads (r.Step none) r.value (below.apply f arguments) i

namespace Evaluation

variable {below : Evaluator} {scope : ScopeId}

theorem leads_traced {x : Action Datum} (trace : ℕ) (name category : String)
    (h : ∀ j, r.Step target i j → Leads (r.Step target) r.value x j) :
    Leads (r.Step target) r.value (traced trace name category x) i := by
  have hrecord (event : TraceEvent) (j : Interpreter) :
      Leads (r.Step target) (fun _ _ => True) (modify (·.record trace event) : Action Unit) j :=
    (runs_record trace event).keeps
  refine (hrecord _ i).bind fun _ j hj _ => ?_
  exact (h j hj).andThenAlways (fun k _ => hrecord _ k) fun _ _ _ hstep => r.value_of_step hstep

/-! ## Files -/

theorem leads_evalEach (hbelow : below.Keeps r) (hi : r.Holds i) {last : Datum}
    (hlast : r.value i last) {expressions : List Datum}
    (hcode : ∀ x ∈ expressions, r.code i scope x) :
    Leads (r.Step (some scope)) r.value (evalEach below scope last expressions) i := by
  induction expressions generalizing i last with
  | nil => exact leads_pure hlast
  | cons x rest ih =>
    refine leads_get_bind (leads_ofExcept_bind fun _ _ => ?_)
    refine (hbelow.eval hi (hcode x List.mem_cons_self)).bind fun value j hj hvalue => ?_
    exact ih (r.holds_of_step hj hi) hvalue fun y hy =>
      r.code_of_step hj (hcode y (List.mem_cons_of_mem x hy))

theorem leads_evalText (hbelow : below.Keeps r) (hi : r.Holds i) {source text : String}
    (hcode : ∀ tokens, Token.scan source text = .ok tokens →
      ∀ x ∈ (Program.ofTokens tokens).expressions, r.code i scope x) :
    Leads (r.Step (some scope)) r.value (evalText below source text scope) i := by
  refine leads_ofExcept_bind fun tokens htokens => ?_
  refine (leads_evalEach hbelow hi (r.value_closed i).nil (hcode tokens htokens)).bind
    fun value j hj hvalue => ?_
  split
  · exact leads_fail _
  · exact leads_pure hvalue

theorem leads_readScript (hloads : r.loads) (file : String) :
    Leads (r.Step target) (fun _ _ => True) (readScript file) i :=
  (leads_modify (r.step_request i file hloads)).bind fun _ _ _ _ =>
    leads_get_bind (Runs.keeps (runs_ofExcept (Q := fun _ => True) fun _ _ => trivial))

theorem leads_loadScript (hbelow : below.Keeps r) (hi : r.Holds i) (hloads : r.loads)
    (folder file : String) :
    Leads (r.Step target) r.value (loadScript below folder file) i := by
  have hread : (readScript file).runFrom i =
      (ofExcept (Fault.script file) (i.files.read file)).runFrom (i.request file) := rfl
  cases hcontent : i.files.read file with
  | error e =>
    rw [hcontent] at hread
    rw [Leads, loadScript, runFrom_bind_error hread]
    exact ⟨r.step_request i file hloads, fun _ h => by cases h⟩
  | ok content =>
    rw [hcontent] at hread
    rw [Leads, loadScript, runFrom_bind_ok hread]
    -- the scope of the file is opened, and everything else happens in it
    obtain ⟨hstate, hvalue⟩ := leads_evalText hbelow (r.holds_script folder file hloads hi)
      fun tokens htokens => r.code_script folder hloads hi htokens
    exact ⟨r.step_script hloads hi hstate, hvalue⟩

theorem leads_loadWatched (hbelow : below.Keeps r) (hi : r.Holds i) (hloads : r.loads)
    {watch : Watch} (hhandler : ∀ handler, watch.handler = some handler → r.value i handler) :
    Leads (r.Step none) (fun _ _ => True) (loadWatched below watch) i := by
  unfold loadWatched
  cases hcase : watch.handler with
  | none =>
    exact (leads_loadScript hbelow hi hloads _ _).bind fun _ _ _ _ => leads_pure trivial
  | some handler =>
    refine (leads_readScript hloads _).bind fun content j hj _ => ?_
    have hargs : ∀ a ∈ [Datum.text content], r.value j a := by
      intro a ha
      rw [List.mem_singleton.1 ha]
      exact (r.value_closed j).text content
    have hvalue := r.value_of_step hj (hhandler handler hcase)
    exact (hbelow.apply (r.holds_of_step hj hi) hvalue hargs).bind
      fun _ _ _ _ => leads_pure trivial

theorem runs_fileArgument (folder : String) (arguments : List Datum) :
    Runs Still (fun _ => True) (fileArgument folder arguments) i :=
  runs_ofExcept_bind fun _ _ => (runs_display _).bind fun _ _ _ _ => runs_pure trivial

theorem leads_watchFile (hbelow : below.Keeps r) (hi : r.Holds i) (hloads : r.loads)
    (folder : String) {arguments : List Datum} (hargs : ∀ a ∈ arguments, r.value i a) :
    Leads (r.Step none) r.value (watchFile below folder arguments) i := by
  refine (runs_fileArgument folder arguments).keeps.bind fun file j hj _ => ?_
  have hhandler {k : Interpreter} (hk : r.Step none i k) (handler : Datum)
      (h : arguments[1]? = some handler) : r.value k handler :=
    r.value_of_step hk (hargs handler (List.mem_of_getElem? h))
  refine (leads_loadWatched hbelow (r.holds_of_step hj hi) hloads (hhandler hj)).bind
    fun _ k hk _ => ?_
  refine (leads_modify (r.step_register (hhandler (r.step_trans hj hk)))).bind fun _ l _ _ => ?_
  exact leads_pure ((r.value_closed l).bool true)

/-! ## Calls -/

theorem leads_runNative (hbelow : below.Keeps r) (hi : r.Holds i) {f : Native}
    (hf : r.value i (.native f)) {arguments : List Datum} (hargs : ∀ a ∈ arguments, r.value i a) :
    Leads (r.Step none) r.value (runNative below f arguments) i := by
  cases f with
  | builtin b =>
    exact ((Builtin.runs_run (r.value_closed i) b hargs).mono r.step_still).leads
      fun _ _ hstep => r.value_of_step hstep
  | importFile owner folder =>
    refine (runs_fileArgument folder arguments).keeps.bind fun file j hj _ => ?_
    exact leads_loadScript hbelow (r.holds_of_step hj hi) (r.loads_of_loader hf rfl) folder file
  | watchFile owner folder =>
    exact leads_watchFile hbelow hi (r.loads_of_loader hf rfl) folder hargs
  | echo => exact leads_pure ((r.value_closed i).list hargs)
  | labelled name =>
    refine leads_pure ((r.value_closed i).list fun item hitem => ?_)
    rcases List.mem_cons.1 hitem with rfl | hitem
    · exact (r.value_closed i).symbol name
    · exact hargs item hitem

theorem leads_applyNative (hbelow : below.Keeps r) (hi : r.Holds i) {f : Native}
    (hf : r.value i (.native f)) {arguments : List Datum} (hargs : ∀ a ∈ arguments, r.value i a) :
    Leads (r.Step none) r.value (applyNative below f arguments) i := by
  refine leads_get_bind ?_
  split
  · refine leads_traced _ _ _ fun j hj => ?_
    exact leads_runNative hbelow (r.holds_of_step hj hi) (r.value_of_step hj hf)
      fun a ha => r.value_of_step hj (hargs a ha)
  · exact leads_runNative hbelow hi hf hargs

theorem value_of_bindParameters {V : Datum → Prop} (hV : DataClosed V)
    {parameters arguments : List Datum} {start bindings : Bindings}
    (hargs : ∀ a ∈ arguments, V a) (hstart : ∀ name d, (name, d) ∈ start → V d)
    (h : bindParameters parameters arguments start = .ok bindings) :
    ∀ name d, (name, d) ∈ bindings → V d := by
  induction parameters generalizing arguments start with
  | nil =>
    cases h
    exact hstart
  | cons parameter parameters ih =>
    cases parameter
    case symbol own =>
      refine ih (fun a ha => hargs a (List.mem_of_mem_tail ha)) (fun name d hmem => ?_) h
      rcases Bindings.mem_assign hmem with heq | hmem
      · cases heq
        cases arguments with
        | nil => exact hV.nil
        | cons a rest => exact hargs a List.mem_cons_self
      · exact hstart name d hmem
    all_goals cases h

theorem value_of_callBindings {V : Datum → Prop} (hV : DataClosed V) {parameters : Datum}
    {arguments : List Datum} {bindings : Bindings} (hargs : ∀ a ∈ arguments, V a)
    (h : callBindings parameters arguments = .ok bindings) :
    ∀ name d, (name, d) ∈ bindings → V d := by
  have hnone : ∀ (name : String) (d : Datum), (name, d) ∈ ([] : Bindings) → V d :=
    fun _ _ hmem => absurd hmem List.not_mem_nil
  unfold callBindings at h
  split at h
  · split at h
    · cases h
    · exact value_of_bindParameters hV hargs hnone h
  · cases h
    intro name d hmem
    cases List.mem_singleton.1 hmem
    exact hV.list hargs
  · cases h
    exact hnone
  · cases h

theorem leads_applyStep (hbelow : below.Keeps r) (hi : r.Holds i) {f : Datum}
    (hf : r.value i f) {arguments : List Datum} (hargs : ∀ a ∈ arguments, r.value i a) :
    Leads (r.Step none) r.value (applyStep below f arguments) i := by
  cases f
  case closure parameters body outer =>
    rw [applyStep_closure]
    refine leads_ofExcept_bind fun bindings hbindings => ?_
    have hvalues := value_of_callBindings (r.value_closed i) hargs hbindings
    obtain ⟨hopened, hbody⟩ := r.holds_call hi hf hvalues
    obtain ⟨hstate, hvalue⟩ := hbelow.eval hopened hbody
    exact ⟨r.step_call hi hf hvalues hstate, hvalue⟩
  case native f => exact leads_applyNative hbelow hi hf hargs
  all_goals exact (runs_display _).keeps.bind fun _ _ _ _ => leads_fail _

/-! ## Special forms -/

theorem leads_evalBranches (hbelow : below.Keeps r) (hi : r.Holds i) {items : List Datum}
    (hcode : ∀ x ∈ items, r.code i scope x) :
    Leads (r.Step (some scope)) r.value (evalBranches below scope items) i := by
  induction items using evalBranches.induct generalizing i with
  | case1 condition branch rest ih =>
    refine (hbelow.eval hi (hcode _ (by simp))).bind fun value j hj _ => ?_
    have hlater : ∀ x ∈ condition :: branch :: rest, r.code j scope x :=
      fun x hx => r.code_of_step hj (hcode x hx)
    split
    · exact hbelow.eval (r.holds_of_step hj hi) (hlater _ (by simp))
    · exact ih (r.holds_of_step hj hi) fun x hx => hlater x (by simp [hx])
  | case2 last => exact hbelow.eval hi (hcode last List.mem_cons_self)
  | case3 => exact leads_pure (r.value_closed i).nil

theorem leads_evalSequence (hbelow : below.Keeps r) (hi : r.Holds i) {items : List Datum}
    (hcode : ∀ x ∈ items, r.code i scope x) :
    Leads (r.Step (some scope)) r.value (evalSequence below scope items) i := by
  induction items generalizing i with
  | nil => exact leads_pure (r.value_closed i).nil
  | cons x rest ih =>
    have hfirst := hbelow.eval hi (hcode x List.mem_cons_self)
    cases rest with
    | nil => exact hfirst
    | cons y rest =>
      exact hfirst.bind fun _ j hj _ => ih (r.holds_of_step hj hi)
        fun z hz => r.code_of_step hj (hcode z (List.mem_cons_of_mem x hz))

theorem leads_evalDefinition (hbelow : below.Keeps r) (hi : r.Holds i) (keyword : String)
    {items : List Datum} (hcode : ∀ x ∈ items, r.code i scope x) :
    Leads (r.Step (some scope)) r.value (evalDefinition below keyword scope items) i := by
  unfold evalDefinition
  split
  · rename_i name expression
    have hx := hcode expression (by simp)
    refine (hbelow.eval hi hx).bind fun value j hj hvalue => ?_
    have hdefine := r.step_define name (r.holds_of_step hj hi) (r.code_of_step hj hx) hvalue
    refine (leads_modify hdefine).bind fun _ k hk _ => ?_
    exact leads_pure (r.value_of_step hk hvalue)
  · exact (runs_display _).keeps.bind fun _ _ _ _ => leads_fail _
  · exact leads_fail _

theorem leads_evalTimed (hbelow : below.Keeps r) (hi : r.Holds i) {items : List Datum}
    (hcode : ∀ x ∈ items, r.code i scope x) :
    Leads (r.Step (some scope)) r.value (evalTimed below scope items) i := by
  cases items with
  | nil => exact leads_fail _
  | cons x rest =>
    have hx {j : Interpreter} (hj : r.Step (some scope) i j) :
        Leads (r.Step (some scope)) r.value (below.eval x scope) j :=
      hbelow.eval (r.holds_of_step hj hi) (r.code_of_step hj (hcode x List.mem_cons_self))
    refine (runs_display x).keeps.bind fun label j hj _ => leads_get_bind ?_
    have hafter {value : Datum} (k : Interpreter) (hvalue : r.value k value) :
        Leads (r.Step (some scope)) r.value (do
          if (← get).printsDurations then printLine ("trace DURATION " ++ label)
          return value) k := by
      refine leads_get_bind ?_
      split
      · exact (runs_printLine _).keeps.bind fun _ l hl _ =>
          leads_pure (r.value_of_step hl hvalue)
      · exact leads_pure hvalue
    dsimp only
    split
    · refine Leads.bind (leads_traced _ _ _ fun k hk => ?_) fun _ k _ hvalue => hafter k hvalue
      exact hx (r.step_trans hj hk)
    · exact (hx hj).bind fun _ k _ hvalue => hafter k hvalue

theorem leads_evalLambda {items : List Datum} (hcode : ∀ x ∈ items, r.code i scope x) :
    Leads (r.Step target) r.value (evalLambda scope items) i := by
  unfold evalLambda
  split
  · exact leads_pure (r.value_closure (hcode _ (by simp)) (hcode _ (by simp)))
  · exact leads_fail _

theorem leads_evalArguments (hbelow : below.Keeps r) (hi : r.Holds i) {items : List Datum}
    (hcode : ∀ x ∈ items, r.code i scope x) :
    Leads (r.Step (some scope)) (fun j values => ∀ a ∈ values, r.value j a)
      (evalArguments below scope items) i := by
  induction items generalizing i with
  | nil => exact leads_pure fun _ hmem => absurd hmem List.not_mem_nil
  | cons x rest ih =>
    refine (hbelow.eval hi (hcode x List.mem_cons_self)).bind fun value j hj hvalue => ?_
    have hrest := ih (r.holds_of_step hj hi)
      fun y hy => r.code_of_step hj (hcode y (List.mem_cons_of_mem x hy))
    refine hrest.bind fun values k hk hvalues => leads_pure fun a ha => ?_
    rcases List.mem_cons.1 ha with rfl | ha
    · exact r.value_of_step hk hvalue
    · exact hvalues a ha

theorem leads_evalCall (hbelow : below.Keeps r) (hi : r.Holds i) {head : Datum}
    (hhead : r.code i scope head) {items : List Datum} (hcode : ∀ x ∈ items, r.code i scope x) :
    Leads (r.Step (some scope)) r.value (evalCall below scope head items) i := by
  rw [evalCall_eq_applyStep]
  refine (hbelow.eval hi hhead).bind fun f j hj hf => ?_
  have hholds := r.holds_of_step hj hi
  refine (leads_evalArguments hbelow hholds fun x hx => r.code_of_step hj (hcode x hx)).bind
    fun values k hk hvalues => ?_
  exact (leads_applyStep hbelow (r.holds_of_step hk hholds) (r.value_of_step hk hf) hvalues).mono
    (r.step_widen _)

theorem leads_evalForm (hbelow : below.Keeps r) (hi : r.Holds i) (name : String)
    (keyword : Keyword) {items : List Datum} (hcode : ∀ x ∈ items, r.code i scope x) :
    Leads (r.Step (some scope)) r.value (evalForm below scope name keyword items) i := by
  cases keyword with
  | quote =>
    cases items with
    | nil => exact leads_fail _
    | cons datum rest => exact leads_pure (r.value_erase (hcode datum List.mem_cons_self))
  | time => exact leads_evalTimed hbelow hi hcode
  | branch => exact leads_evalBranches hbelow hi hcode
  | definition => exact leads_evalDefinition hbelow hi name hcode
  | lambda => exact leads_evalLambda hcode
  | sequence => exact leads_evalSequence hbelow hi hcode

theorem leads_evalList (hbelow : below.Keeps r) (hi : r.Holds i) {items : List Datum}
    (hcode : ∀ x ∈ items, r.code i scope x) :
    Leads (r.Step (some scope)) r.value (evalList below scope items) i := by
  unfold evalList
  split
  · exact leads_pure ((r.value_closed i).list fun _ hmem => absurd hmem List.not_mem_nil)
  · have hrest {x : Datum} {rest : List Datum} (h : ∀ y ∈ x :: rest, r.code i scope y) :
        ∀ y ∈ rest, r.code i scope y := fun y hy => h y (List.mem_cons_of_mem x hy)
    split
    · exact leads_evalForm hbelow hi _ _ (hrest hcode)
    · exact leads_evalCall hbelow hi (hcode _ List.mem_cons_self) (hrest hcode)
  · rename_i head items _
    exact leads_evalCall hbelow hi (hcode head List.mem_cons_self)
      fun y hy => hcode y (List.mem_cons_of_mem head hy)

theorem leads_evalStep (hbelow : below.Keeps r) (hi : r.Holds i) {x : Datum}
    (hx : r.code i scope x) :
    Leads (r.Step (some scope)) r.value (evalStep below x scope) i := by
  -- code that is no list is its own erasure
  have hself (h : x.erase = x) : r.value i x := h ▸ r.value_erase hx
  cases x
  case list position items =>
    have hitems : Leads (r.Step (some scope)) r.value (evalList below scope items) i :=
      leads_evalList hbelow hi fun y hy => r.code_item hx hy
    cases position with
    | none => exact hitems
    | some position => exact hitems.located position
  case symbol name =>
    refine leads_get_bind ?_
    split
    · rename_i value hvalue
      obtain ⟨found, bound, hbound, hmem⟩ := ScopeTable.mem_of_lookupFrom hvalue
      exact leads_pure (r.value_bound hi hbound hmem)
    · exact leads_fail _
  case host h => exact leads_fail _
  all_goals exact leads_pure (hself (by simp [Datum.erase]))

end Evaluation

/-! ## Every depth -/

/-- Evaluation keeps every regime, to any depth. -/
theorem evaluator_keeps (r : Regime) (depth : ℕ) : (evaluator depth).Keeps r := by
  induction depth with
  | zero => exact ⟨fun _ _ => leads_throw _, fun _ _ _ => leads_throw _⟩
  | succ depth ih =>
    exact ⟨fun hi hx => Evaluation.leads_evalStep ih hi hx,
      fun hi hf hargs => Evaluation.leads_applyStep ih hi hf hargs⟩

end Reckoner

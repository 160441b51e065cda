import Reckoner.Evaluation
import Reckoner.Proofs.Evaluation.Evolution

/-!
# What builtins do to the state, and what they give

A builtin prints, traces and changes settings; `Still` says that everything else stays as it is.
Its value is made of its arguments and of new data, so it has every property that such data have:
`Builtin.runs_run`.
-/

namespace Reckoner

open Reckoner.Action Interpreter

/-- Scopes, catalogue, files asked for and watched files stay as they are. -/
structure Interpreter.Still (i j : Interpreter) : Prop extends Quiet i j where
  watches : j.watches = i.watches

instance : IsPreorder Interpreter Still where
  refl _ := ⟨⟨rfl, rfl, rfl⟩, rfl⟩
  trans _ _ _ hij hjk :=
    ⟨⟨hjk.scopes.trans hij.scopes, hjk.catalogue.trans hij.catalogue,
      hjk.requested.trans hij.requested⟩, hjk.watches.trans hij.watches⟩

/-- A property of data that new data have, and lists of data that have it. -/
structure DataClosed (V : Datum → Prop) : Prop where
  nil : V .nil
  bool (b : Bool) : V (.bool b)
  text (text : String) : V (.text text)
  symbol (name : String) : V (.symbol name)
  number (n : Number) : V (.number n)
  list {items : List Datum} : (∀ item ∈ items, V item) → V (.ofList items)

variable {i : Interpreter}

/-! ## Printing and tracing -/

theorem runs_print (text : String) : Runs Still (fun _ => True) (print text) i :=
  runs_modify ⟨⟨rfl, rfl, rfl⟩, rfl⟩

theorem runs_printLine (text : String) :
    Runs Still (fun _ => True) (printLine text) i :=
  runs_print _

theorem runs_display (value : Datum) :
    Runs Still (fun _ => True) (Action.display value) i :=
  runs_get_bind (runs_pure trivial)

theorem runs_record (trace : ℕ) (event : TraceEvent) :
    Runs Still (fun _ => True) (modify (·.record trace event) : Action Unit) i :=
  runs_modify ⟨⟨rfl, rfl, rfl⟩, rfl⟩

theorem still_closeTrace (i : Interpreter) : Still i i.closeTrace := by
  unfold closeTrace
  cases i.tracing with
  | none => exact ⟨⟨rfl, rfl, rfl⟩, rfl⟩
  | some trace => exact ⟨⟨rfl, rfl, rfl⟩, rfl⟩

theorem runs_setTracing (on : Bool) :
    Runs Still (fun _ => True) (setTracing on) i := by
  refine (runs_modify (still_closeTrace i)).bind fun _ j _ _ => ?_
  cases on with
  | false => exact runs_pure trivial
  | true =>
    refine runs_get_bind ?_
    exact runs_ofExcept_bind fun files _ => runs_set ⟨⟨rfl, rfl, rfl⟩, rfl⟩

/-! ## Help and settings -/

namespace Builtin

theorem runs_printEntry (c : Catalogue) (entry : String) :
    Runs Still (fun _ => True) (printEntry c entry) i := by
  unfold printEntry
  split
  · exact (runs_printLine _).bind fun _ _ _ _ => runs_printLine _
  · split
    · exact runs_fail _
    · exact runs_printLine _

theorem runs_printOverview : Runs Still (fun _ => True) printOverview i := by
  refine runs_get_bind ((runs_printLine _).bind fun _ _ _ _ => ?_)
  refine Runs.bind (runs_forIn fun entry _ _ _ => ?_) fun _ _ _ _ => ?_
  · exact (runs_printEntry _ entry).bind fun _ _ _ _ => runs_pure trivial
  · exact (runs_printLine _).bind fun _ _ _ _ => runs_printLine _

theorem runs_printTopic (d : Declaration) :
    Runs Still (fun _ => True) (printTopic d) i := by
  have hline {action : Action Unit} {text : String}
      (h : ∀ j, Runs Still (fun _ => True) action j) (j : Interpreter) :
      Runs Still (fun _ => True) (printLine text >>= fun _ => action) j :=
    (runs_printLine text).bind fun _ k _ _ => h k
  refine hline (hline (hline (hline (hline (hline (hline fun j => ?_)))))) i
  refine Runs.bind (runs_forIn fun p _ _ _ => ?_) fun _ _ _ _ => runs_printLine _
  exact (runs_printLine _).bind fun _ _ _ _ => runs_pure trivial

theorem runs_explain (d : Datum) : Runs Still (fun _ => True) (explain d) i := by
  unfold explain
  split
  · exact runs_printOverview
  · refine runs_get_bind ?_
    split
    · exact runs_printTopic _
    · exact runs_fail _

theorem runs_writeSetting (name : String) (on : Bool) :
    Runs Still (fun _ => True) (writeSetting name on) i := by
  unfold writeSetting
  split_ifs
  · exact runs_modify ⟨⟨rfl, rfl, rfl⟩, rfl⟩
  · exact (runs_modify ⟨⟨rfl, rfl, rfl⟩, rfl⟩).bind fun _ _ _ _ => runs_setTracing on
  · exact runs_modify ⟨⟨rfl, rfl, rfl⟩, rfl⟩
  · exact runs_fail _
  · exact runs_fail _

/-! ## Values -/

variable {V : Datum → Prop} {arguments : List Datum} {d : Datum}

/-- What is computed from the first argument alone. -/
theorem value_of_first {f : Datum → Except Fault Datum} (hf : ∀ a d, f a = .ok d → V d)
    (h : (first arguments >>= f) = .ok d) : V d := by
  cases hargument : first arguments with
  | error e =>
    rw [hargument] at h
    cases h
  | ok a =>
    rw [hargument] at h
    exact hf a d h

variable (hV : DataClosed V)
include hV

theorem value_ofNumber {result : Except NumberError Number} (h : ofNumber result = .ok d) :
    V d := by
  cases result with
  | ok n =>
    cases h
    exact hV.number n
  | error e => cases h

theorem value_ofBool {result : Except NumberError Bool} (h : ofBool result = .ok d) :
    V d := by
  cases result with
  | ok b =>
    cases h
    exact hV.bool b
  | error e => cases h

theorem value_combine {operation : Operand → Operand → Except NumberError Number}
    (hargs : ∀ a ∈ arguments, V a) (h : combine operation arguments = .ok d) : V d := by
  cases arguments with
  | nil => cases h
  | cons start rest =>
    have hstart := hargs start List.mem_cons_self
    clear hargs
    rw [combine] at h
    induction rest generalizing start with
    | nil =>
      cases h
      exact hstart
    | cons a rest ih =>
      rw [List.foldlM_cons] at h
      cases hnext : ofNumber (operation start.operand a.operand) with
      | error e =>
        rw [hnext] at h
        cases h
      | ok next =>
        rw [hnext] at h
        exact ih next h (value_ofNumber hV hnext)

theorem value_construct {kind : Kind} {read : String → Except NumberTextFault Number}
    (h : construct kind read arguments = .ok d) : V d := by
  refine value_of_first (fun a d h => ?_) h
  split at h
  · split at h
    · exact value_ofNumber hV h
    · cases h
  · exact value_ofNumber hV h

theorem value_kindName {a : Datum} (h : kindName a = .ok d) : V d := by
  unfold kindName at h
  split at h
  · cases h
    exact hV.text _
  · cases h
    exact hV.text _
  · cases h

/-- What a builtin computes is made of its arguments and of new data. -/
theorem value_compute {b : Builtin} (hargs : ∀ a ∈ arguments, V a)
    (h : compute? b arguments = some (.ok d)) : V d := by
  have hbool {p : Datum → Bool} (h : (first arguments >>= fun a => pure (.bool (p a))) = .ok d) :
      V d := by
    refine value_of_first (fun a d h => ?_) h
    cases h
    exact hV.bool _
  cases b
  case isNumber | not => exact hbool (Option.some.inj h)
  case numericKind => exact value_of_first (fun _ _ => value_kindName hV) (Option.some.inj h)
  case add | multiply | divide => exact value_combine hV hargs (Option.some.inj h)
  case subtract =>
    replace h := Option.some.inj h
    split at h
    · exact value_ofNumber hV h
    · exact value_combine hV hargs h
  case equal | less | greater | lessEqual | greaterEqual =>
    exact value_ofBool hV (Option.some.inj h)
  case negate | square | squareRoot =>
    exact value_of_first (fun _ _ => value_ofNumber hV) (Option.some.inj h)
  case toInt32 | toInt64 | toBigint | toFloat | toDecimal =>
    exact value_construct hV (Option.some.inj h)
  case list =>
    cases h
    exact hV.list hargs
  case help | error | settings | print | environment => cases h

theorem value_readSetting {s : Settings} {name : String} (h : readSetting s name = .ok d) :
    V d := by
  unfold readSetting at h
  split_ifs at h
  all_goals cases h
  · exact hV.bool _
  · exact hV.bool _
  · exact hV.bool _
  · exact hV.number _

theorem value_listSettings (s : Settings) : V (listSettings s) := by
  apply hV.list
  intro item hitem
  simp only [List.mem_cons, List.not_mem_nil, or_false] at hitem
  rcases hitem with rfl | rfl | rfl | rfl | rfl | rfl | rfl | rfl
  all_goals first
    | exact hV.text _
    | exact hV.bool _
    | exact hV.number _

theorem runs_changeSettings (arguments : List Datum) :
    Runs Still V (changeSettings arguments) i := by
  unfold changeSettings
  split
  · exact runs_get_bind (runs_pure (value_listSettings hV _))
  · exact (runs_display _).bind fun _ _ _ _ =>
      runs_get_bind (runs_ofExcept fun _ h => value_readSetting hV h)
  · exact (runs_display _).bind fun _ _ _ _ =>
      (runs_writeSetting _ _).bind fun _ _ _ _ => runs_pure (hV.bool true)

theorem runs_environmentVariable (hargs : ∀ a ∈ arguments, V a) :
    Runs Still V (environmentVariable arguments) i := by
  unfold environmentVariable
  split
  · exact runs_fail _
  · exact (runs_display _).bind fun _ _ _ _ => runs_get_bind (runs_pure (hV.text _))
  · refine (runs_display _).bind fun _ _ _ _ => runs_get_bind (runs_pure ?_)
    split
    · exact hV.text _
    · exact hargs _ (by simp)

theorem runs_printValues (values : List Datum) :
    Runs Still V (printValues values) i := by
  refine Runs.bind (runs_forIn fun value _ _ _ => ?_) fun _ _ _ _ => ?_
  · exact (runs_display value).bind fun _ _ _ _ =>
      (runs_print _).bind fun _ _ _ _ => runs_pure trivial
  · exact (runs_printLine _).bind fun _ _ _ _ => runs_pure (hV.bool true)

theorem runs_run (b : Builtin) (hargs : ∀ a ∈ arguments, V a) :
    Runs Still V (b.run arguments) i := by
  unfold run
  cases hresult : compute? b arguments with
  | some result =>
    refine runs_ofExcept fun d hd => ?_
    subst hd
    exact value_compute hV hargs hresult
  | none =>
    dsimp only
    split
    · exact (runs_explain _).bind fun _ _ _ _ => runs_pure hV.nil
    · exact runs_ofExcept_bind fun _ _ => (runs_display _).bind fun _ _ _ _ => runs_fail _
    · exact runs_changeSettings hV arguments
    · exact runs_printValues hV arguments
    · exact runs_environmentVariable hV hargs

end Builtin

end Reckoner

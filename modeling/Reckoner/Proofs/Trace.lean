import Reckoner.Proofs.Evaluation.Discipline

/-!
# Traces are well nested

Three groups of lemmas lead to the text of a trace.

* The log.  `TraceLog.recordAll` records events one after another, and `text_recordAll` says what
  has been written then, whatever the flag for the first event was on the way.
* Words of events.  `WellNested` words are those in which beginnings and ends match like brackets.
* Evaluations.  `Interpreter.Records i j word` says that between two states the open trace has
  recorded a word and that nothing else has happened to the traces.  That the word is well nested is
  a discipline of all evaluations, because the end of a call is recorded whether the call fails or
  not.

`Evaluation.trace_well_nested` is about any number of evaluations after another.
-/

namespace Reckoner

/-! ## The log -/

namespace TraceLog

/-- Record events one after another. -/
def recordAll (log : TraceLog) (events : List TraceEvent) : TraceLog := events.foldl record log

theorem recordAll_append (log : TraceLog) (events others : List TraceEvent) :
    log.recordAll (events ++ others) = (log.recordAll events).recordAll others :=
  List.foldl_append

theorem closed_recordAll (log : TraceLog) (events : List TraceEvent) :
    (log.recordAll events).closed = log.closed := by
  induction events generalizing log with
  | nil => rfl
  | cons event events ih =>
    refine (ih (log.record event)).trans ?_
    unfold record
    split <;> rfl

/-- After the first event, every event is written with a separator before it. -/
theorem text_recordAll_started {log : TraceLog} {before last : String} (hopen : log.closed = false)
    (hstarted : log.isFirst = false) (htext : log.text = before ++ last)
    (events : List TraceEvent) :
    (log.recordAll events).text =
      before ++ String.intercalate ",\n" (last :: events.map TraceEvent.json) := by
  induction events generalizing log before last with
  | nil => rw [List.map_nil, String.intercalate_singleton]; exact htext
  | cons event events ih =>
    have hrecord : log.record event =
        { log with text := before ++ last ++ ",\n" ++ event.json, isFirst := false } := by
      simp [record, hopen, hstarted, htext]
    have hrest : ((log.record event).recordAll events).text = before ++ last ++ ",\n" ++
        String.intercalate ",\n" (event.json :: events.map TraceEvent.json) :=
      ih (by rw [hrecord]; exact hopen) (by rw [hrecord]) (by rw [hrecord])
    rw [List.map_cons, String.intercalate_cons_cons, ← String.append_assoc, ← String.append_assoc]
    exact hrest

/-- What has been written to a trace that is open: the events so far, with separators between
them. -/
theorem text_recordAll (file : Option String) (events : List TraceEvent) :
    (TraceLog.recordAll { file } events).text =
      "[" ++ String.intercalate ",\n" (events.map TraceEvent.json) := by
  cases events with
  | nil => rfl
  | cons event events =>
    have htext : (TraceLog.record { file } event).text = "[" ++ event.json := rfl
    exact text_recordAll_started rfl rfl htext events

theorem text_close_recordAll (file : Option String) (events : List TraceEvent) :
    (TraceLog.recordAll { file } events).close.text =
      "[" ++ String.intercalate ",\n" (events.map TraceEvent.json) ++ "]" := by
  have hopen : (TraceLog.recordAll { file } events).closed = false := closed_recordAll _ events
  rw [close, hopen, ← text_recordAll file events]
  rfl

end TraceLog

/-! ## Words of events -/

/-- Beginnings and ends match like brackets, each beginning with a later end of the same name and
category. -/
inductive WellNested : List TraceEvent → Prop where
  | nil : WellNested []
  | call (name category : String) {inner rest : List TraceEvent} (hinner : WellNested inner)
      (hrest : WellNested rest) :
      WellNested (⟨name, category, .beginning⟩ :: (inner ++ ⟨name, category, .ending⟩ :: rest))

theorem WellNested.append {word other : List TraceEvent} (h : WellNested word)
    (hother : WellNested other) : WellNested (word ++ other) := by
  induction h with
  | nil => exact hother
  | call name category hinner _ _ ih =>
    rw [List.cons_append, List.append_assoc, List.cons_append]
    exact .call name category hinner ih

theorem WellNested.single (name category : String) {inner : List TraceEvent}
    (h : WellNested inner) :
    WellNested (⟨name, category, .beginning⟩ :: (inner ++ [⟨name, category, .ending⟩])) :=
  .call name category h .nil

/-! ## Evaluations -/

/-- The open trace records a word, and the other traces stay as they are. -/
structure Interpreter.Records (i j : Interpreter) (word : List TraceEvent) : Prop where
  tracing : j.tracing = i.tracing
  traces : ∀ n, j.traces[n]? =
    if i.tracing = some n then i.traces[n]?.map (·.recordAll word) else i.traces[n]?

namespace Interpreter

variable {i j k : Interpreter} {word other : List TraceEvent}

theorem records_of_eq (htracing : j.tracing = i.tracing) (htraces : j.traces = i.traces) :
    i.Records j [] := by
  refine ⟨htracing, fun n => ?_⟩
  rw [htraces]
  split
  · cases i.traces[n]? <;> rfl
  · rfl

theorem Records.trans (h : i.Records j word) (h' : j.Records k other) :
    i.Records k (word ++ other) := by
  refine ⟨h'.tracing.trans h.tracing, fun n => ?_⟩
  rw [h'.traces, h.tracing, h.traces]
  split
  · cases i.traces[n]? with
    | none => rfl
    | some log => exact congrArg some (log.recordAll_append word other).symm
  · rfl

/-- Recording an event in the open trace. -/
theorem records_record {trace : ℕ} (h : i.tracing = some trace) (event : TraceEvent) :
    i.Records (i.record trace event) [event] := by
  refine ⟨rfl, fun n => ?_⟩
  rw [record, Array.getElem?_modify, h]
  simp only [Option.some.injEq]
  rfl

end Interpreter

open Interpreter (records_of_eq records_record)

/-- That the word which is recorded is well nested. -/
def Discipline.nesting : Discipline where
  Holds x i := ∃ word, WellNested word ∧ i.Records (x.runFrom i).2 word
  holds_pure _ _ := ⟨[], .nil, records_of_eq rfl rfl⟩
  holds_throw _ _ := ⟨[], .nil, records_of_eq rfl rfl⟩
  holds_bind {_ _ x f i} hx hf := by
    obtain ⟨word, hword, hrecords⟩ := hx
    rcases Action.runFrom_cases x i with ⟨a, j, hrun⟩ | ⟨failure, j, hrun⟩
    · obtain ⟨other, hother, hrest⟩ := hf a j hrun
      rw [hrun] at hrecords
      rw [Action.runFrom_bind_ok hrun]
      exact ⟨word ++ other, hword.append hother, hrecords.trans hrest⟩
    · rw [Action.runFrom_bind_error hrun]
      rw [hrun] at hrecords
      exact ⟨word, hword, hrecords⟩
  holds_located position hx := by
    rw [Action.runFrom_located]
    exact hx
  holds_get_bind _ h := h
  holds_modify {update} i hupdate := by
    -- the update gives back the traces that it was given
    have hsame : update i = (update i).retraced i := hupdate i i
    refine ⟨[], .nil, records_of_eq ?_ ?_⟩
    · exact (congrArg Interpreter.tracing hsame).trans rfl
    · exact (congrArg Interpreter.traces hsame).trans rfl
  holds_print _ _ := ⟨[], .nil, records_of_eq rfl rfl⟩
  holds_printDuration label i := by
    rw [Action.runFrom_printDuration]
    dsimp only
    split
    · exact ⟨[], .nil, records_of_eq rfl rfl⟩
    · exact ⟨[], .nil, records_of_eq rfl rfl⟩
  holds_switch _ _ := ⟨[], .nil, records_of_eq rfl rfl⟩
  holds_recorded {_ x i} name category hx := by
    rw [Action.runFrom_recorded]
    obtain ⟨inner, hinner, hrecords⟩ := hx
    unfold Interpreter.beginning at hrecords ⊢
    unfold Interpreter.ending
    cases htracing : i.tracing with
    | none =>
      rw [htracing] at hrecords
      exact ⟨inner, hinner, hrecords⟩
    | some trace =>
      rw [htracing] at hrecords
      cases name with
      | none => exact ⟨inner, hinner, hrecords⟩
      | some name =>
        have hend := records_record (hrecords.tracing.trans htracing) ⟨name, category, .ending⟩
        exact ⟨_, hinner.single name category,
          (records_record htracing _).trans (hrecords.trans hend)⟩

namespace Evaluation

/-- Activities after another, each of which leaves the tracing alone, whatever their outcomes. -/
inductive Evaluations : Interpreter → Interpreter → Prop where
  | none (i : Interpreter) : Evaluations i i
  | more {i j : Interpreter} {depth : ℕ} {t : Activity} (h : Evaluations i j)
      (hleaves : LeavesTracing depth t j) :
      Evaluations i ((t.perform (evaluator depth)).runFrom j).2

variable {i j : Interpreter}

theorem Evaluations.records (h : Evaluations i j) : ∃ word, WellNested word ∧ i.Records j word := by
  induction h with
  | none => exact ⟨[], .nil, records_of_eq rfl rfl⟩
  | more _ hleaves ih =>
    obtain ⟨word, hword, hrecords⟩ := ih
    obtain ⟨other, hother, hrest⟩ :=
      Discipline.holds_of_leavesTracing (D := .nesting) hleaves
    exact ⟨word ++ other, hword.append hother, hrecords.trans hrest⟩

/-- What evaluations add to an open trace is well nested.  The trace stays open, and when it is
closed its text is the list of all its events, with a comma and the end of a line between them. -/
theorem trace_well_nested {n : ℕ} {file : Option String} {before : List TraceEvent}
    (hactive : i.tracing = some n) (hlog : i.traces[n]? = some (.recordAll { file } before))
    (h : Evaluations i j) :
    ∃ word, WellNested word ∧ j.tracing = some n ∧
      j.traces[n]? = some (.recordAll { file } (before ++ word)) ∧
      j.closeTrace.traces[n]?.map (·.text) =
        some ("[" ++ String.intercalate ",\n" ((before ++ word).map TraceEvent.json) ++ "]") := by
  obtain ⟨word, hword, hrecords⟩ := h.records
  have htracing : j.tracing = some n := hrecords.tracing.trans hactive
  have hlast : j.traces[n]? = some (.recordAll { file } (before ++ word)) := by
    rw [hrecords.traces, if_pos hactive, hlog, TraceLog.recordAll_append]
    rfl
  refine ⟨word, hword, htracing, hlast, ?_⟩
  rw [Interpreter.closeTrace, htracing]
  dsimp only
  rw [Array.getElem?_modify, if_pos rfl, hlast]
  exact congrArg some (TraceLog.text_close_recordAll file _)

/-- One call gives a value and the next one fails. -/
theorem trace_well_nested_calls :
    let i := Interpreter.initial.openTrace none
    let j :=
      (((evaluator 2).eval (.ofList [.symbol "not", .symbol "true"]) globalScope).runFrom i).2
    let k := (((evaluator 2).eval (.ofList [.symbol "error", .text "no"]) globalScope).runFrom j).2
    (∃ word, WellNested word ∧ k.tracing = some 0 ∧
      k.traces[0]? = some (.recordAll { file := none } word) ∧
      k.closeTrace.traces[0]?.map (·.text) =
        some ("[" ++ String.intercalate ",\n" (word.map TraceEvent.json) ++ "]")) ∧
      k.traces[0]? = some (.recordAll { file := none }
        [⟨"not", "builtin", .beginning⟩, ⟨"not", "builtin", .ending⟩,
          ⟨"error", "builtin", .beginning⟩, ⟨"error", "builtin", .ending⟩]) := by
  intro i j k
  have hatoms {x : Datum} (hx : ∀ position items, x ≠ .list position items) :
      ∀ y ∈ [x], ∀ position items, y ≠ .list position items := by
    intro y hy
    rwa [List.mem_singleton.1 hy]
  have hfirst : LeavesTracing 2 (.eval (.ofList [.symbol "not", .symbol "true"]) globalScope) i :=
    leavesTracing_call (b := .not) rfl rfl (by decide) (hatoms fun _ _ => Datum.noConfusion) none
  have hsecond : LeavesTracing 2 (.eval (.ofList [.symbol "error", .text "no"]) globalScope) j :=
    leavesTracing_call (b := .error) rfl rfl (by decide) (hatoms fun _ _ => Datum.noConfusion) none
  have hlog : i.traces[0]? = some (.recordAll { file := none } []) := rfl
  exact ⟨trace_well_nested rfl hlog (.more (.more (.none i) hfirst) hsecond), rfl⟩

end Evaluation

end Reckoner

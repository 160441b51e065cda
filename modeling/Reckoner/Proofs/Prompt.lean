import Reckoner.Prompt
import Reckoner.Proofs.Evaluation.Evaluator

/-!
# The prompt evaluates every completed text once

The prompt tells an unfinished text from a failure by the wording alone: a message without a
position that ends in the demand for a closing parenthesis.  `endsInside_of_evalLine` says that only
the reader words a failure so, and only for a list that is not closed, so a line that is kept has
not been evaluated at all.  There are three parts to it.

* Messages about a wrong argument end in a type, and types come from the declarations.
* Whatever fails inside a list gets the position of the list.
* Outside of lists only a symbol can fail, and no symbol ends in a parenthesis.

`chunks` cuts the events into texts by the reader alone, and `run_evaluates_chunks` says that the
prompt is the evaluation of these texts one after the other.
-/

namespace Reckoner

open Reckoner.Action

/-! ## Texts that do not end in a closing parenthesis -/

/-- A text whose last character is no closing parenthesis. -/
def EndsOpen (text : String) : Prop := text.toList.getLast? ≠ some ')'

instance (text : String) : Decidable (EndsOpen text) := inferInstanceAs (Decidable (_ ≠ _))

theorem endsWith_iff {text back : String} :
    text.endsWith back = true ↔ back.toList <:+ text.toList := by
  have hslice := @String.Slice.endsWith_string_iff back text.toSlice
  rwa [String.copy_toSlice] at hslice

theorem EndsOpen.endsWith {text : String} (h : EndsOpen text) :
    text.endsWith "expecting matching )" = false := by
  rw [Bool.eq_false_iff]
  intro hends
  obtain ⟨front, hfront⟩ := endsWith_iff.1 hends
  apply h
  rw [← hfront, List.getLast?_append]
  rfl

theorem EndsOpen.append {front back : String} (hfront : EndsOpen front) (hback : EndsOpen back) :
    EndsOpen (front ++ back) := by
  unfold EndsOpen at *
  rw [String.toList_append, List.getLast?_append]
  cases hlast : back.toList.getLast? with
  | none => exact hfront
  | some c => rwa [hlast] at hback

theorem endsOpen_append {back : String} {c : Char} (hback : back.toList.getLast? = some c)
    (hc : c ≠ ')') (front : String) : EndsOpen (front ++ back) := by
  unfold EndsOpen
  rw [String.toList_append, List.getLast?_append, hback]
  exact fun heq => hc (Option.some.inj heq)

/-! ## Rejections -/

/-- The types that declarations say they return. -/
def Catalogue.ReturnsEndOpen (c : Catalogue) : Prop :=
  ∀ name d, c.find? name = some d → EndsOpen d.returns.text

/-- The type of an expression and the message of a rejection end open. -/
structure Datum.JudgedOpen (c : Catalogue) (datum : Datum) : Prop where
  ok : ∀ t, datum.infer c = .ok t → EndsOpen t.text
  error : ∀ r, datum.infer c = .error r → EndsOpen r.message

namespace Datum

variable {c : Catalogue} {datum : Datum}

theorem judgedOpen_of_ok {t : TypeExpr} (h : datum.infer c = .ok t) (ht : EndsOpen t.text) :
    datum.JudgedOpen c := by
  constructor
  · intro s hs
    rw [h] at hs
    cases hs
    exact ht
  · intro r hr
    rw [h] at hr
    cases hr

theorem judgedOpen_of_error {r : Rejection} (h : datum.infer c = .error r)
    (hr : EndsOpen r.message) : datum.JudgedOpen c := by
  constructor
  · intro t ht
    rw [h] at ht
    cases ht
  · intro s hs
    rw [h] at hs
    cases hs
    exact hr

theorem endsOpen_numberType (n : Number) : EndsOpen (numberType n).text := by
  have hint : EndsOpen TypeExpr.int.text := by decide
  have hnumber : EndsOpen TypeExpr.number.text := by decide
  cases n with
  | int32 => exact hint
  | int64 => exact hint
  | bigint => exact hint
  | float64 => exact hnumber
  | decimal => exact hnumber

theorem endsOpen_checkCount {place : Position} {declaration : Option Declaration} {count : ℕ}
    {r : Rejection} (h : checkCount place declaration count = .error r) : EndsOpen r.message := by
  unfold checkCount at h
  split at h
  · cases h
  · split_ifs at h <;> cases h <;> exact endsOpen_append (c := 's') rfl (by decide) _

theorem endsOpen_returns (hc : c.ReturnsEndOpen) {head : Datum} {d : Declaration}
    (hd : headDeclaration? c head = some d) : EndsOpen d.returns.text := by
  cases head
  case symbol name => exact hc name d hd
  all_goals cases hd

/-- A wrong argument is the only rejection that shows a type. -/
theorem endsOpen_wrongType {place : Position} {name : String} {index : ℕ}
    {required found : TypeExpr} (h : EndsOpen found.text) :
    EndsOpen (Rejection.wrongType place name index required found).message :=
  (endsOpen_append (c := ' ') rfl (by decide) _).append h

theorem judgedOpen (hc : c.ReturnsEndOpen) (datum : Datum) : datum.JudgedOpen c := by
  refine (infer.mutual_induct c (JudgedOpen c)
    (fun place declaration index arguments => ∀ r,
      checkArguments c place declaration index arguments = .error r → EndsOpen r.message)
    ?nil ?text ?number ?reference ?bool ?closure ?native ?symbol ?host ?empty ?quote ?lambda
    ?otherLambda ?call ?noArgument ?argument).1 datum
  case nil => exact judgedOpen_of_ok (infer.eq_1 c) (by decide)
  case text => exact fun s => judgedOpen_of_ok (infer.eq_2 c s) (by decide)
  case number => exact fun n => judgedOpen_of_ok (infer.eq_3 c n) (endsOpen_numberType n)
  case reference => exact fun r => judgedOpen_of_ok (infer.eq_4 c r) (by decide)
  case bool => exact fun b => judgedOpen_of_ok (infer.eq_5 c b) (by decide)
  case closure => exact fun p b s => judgedOpen_of_ok (infer.eq_6 c p b s) (by decide)
  case native => exact fun f => judgedOpen_of_ok (infer.eq_7 c f) (by decide)
  case symbol => exact fun name => judgedOpen_of_ok (infer.eq_8 c name) (by decide)
  case host => exact fun h => judgedOpen_of_ok (infer.eq_9 c h) (by decide)
  case empty => exact fun p => judgedOpen_of_ok (infer.eq_10 c p) (by decide)
  case quote => exact fun p tail => judgedOpen_of_ok (infer.eq_11 c p tail) (by decide)
  case otherLambda => exact fun p tail h => judgedOpen_of_ok (infer.eq_13 c p tail h) (by decide)
  case lambda =>
    intro position head body ih
    have heq := infer.eq_12 c position head body
    cases hbody : infer c body with
    | ok t =>
      rw [hbody] at heq
      exact judgedOpen_of_ok heq (by decide)
    | error r =>
      rw [hbody] at heq
      exact judgedOpen_of_error heq (ih.error r hbody)
  case call =>
    intro position head arguments hquote hother hlambda declaration place ih
    have heq := infer.eq_14 c position head arguments hquote hother hlambda
    cases hcount : checkCount place declaration arguments.length with
    | error r =>
      rw [hcount] at heq
      exact judgedOpen_of_error heq (endsOpen_checkCount hcount)
    | ok _ =>
      rw [hcount] at heq
      cases harguments : checkArguments c place declaration 0 arguments with
      | error r =>
        change infer c _ = (checkArguments c place declaration 0 arguments >>= _) at heq
        rw [harguments] at heq
        exact judgedOpen_of_error heq (ih r harguments)
      | ok _ =>
        change infer c _ = (checkArguments c place declaration 0 arguments >>= _) at heq
        rw [harguments] at heq
        cases hd : headDeclaration? c head with
        | none =>
          rw [hd] at heq
          exact judgedOpen_of_ok heq (by decide)
        | some d =>
          rw [hd] at heq
          exact judgedOpen_of_ok heq (endsOpen_returns hc hd)
  case noArgument =>
    intro _ _ _ r h
    rw [checkArguments] at h
    cases h
  case argument =>
    intro place declaration index argument rest ihargument ihrest r h
    rw [checkArguments] at h
    cases hfound : infer c argument with
    | error s =>
      rw [hfound] at h
      cases h
      exact ihargument.error r hfound
    | ok found =>
      rw [hfound] at h
      cases declaration with
      | none => exact ihrest r h
      | some d =>
        change (if found.fits (d.argumentType index) = true then _ else _) = _ at h
        split at h
        · exact ihrest r h
        · cases h
          exact endsOpen_wrongType (ihargument.ok found hfound)

end Datum

/-! ## The declarations that an interpreter starts with -/

namespace Catalogue

/-- The declarations of an interpreter as it starts, with a shell or without. -/
def IsBuiltin (c : Catalogue) : Prop :=
  c = .standard ∨ ∃ folder, c = Catalogue.standard.declareShell folder

theorem returnsEndOpen_standard : Catalogue.standard.ReturnsEndOpen := by
  have hall : Catalogue.standard.byName.all
      (fun entry => decide (EndsOpen entry.2.returns.text)) = true := by decide +kernel
  intro name d hd
  exact of_decide_eq_true (List.all_eq_true.1 hall (name, d) (mem_of_lookup hd))

theorem ReturnsEndOpen.add {c : Catalogue} (h : c.ReturnsEndOpen) {d : Declaration}
    (hd : EndsOpen d.returns.text) : (c.add d).ReturnsEndOpen := by
  intro name found hfound
  rw [find?, Catalogue.add, List.lookup_cons] at hfound
  split at hfound
  · cases hfound
    exact hd
  · exact h name found hfound

theorem IsBuiltin.returnsEndOpen {c : Catalogue} (h : c.IsBuiltin) : c.ReturnsEndOpen := by
  rcases h with rfl | ⟨folder, rfl⟩
  · exact returnsEndOpen_standard
  · have htitle : (Catalogue.standard.addTitle "IO").ReturnsEndOpen := returnsEndOpen_standard
    have hbool : EndsOpen (TypeExpr.ofText "bool").text := by decide
    have hstring : EndsOpen (TypeExpr.ofText "string").text := by decide
    have hany : EndsOpen (TypeExpr.ofText "any").text := by decide
    exact (((htitle.add hbool).add hstring).add hany).add hbool

end Catalogue

/-! ## Failures that ask for more -/

namespace Token

theorem WordChars.head_ne_close {c : Char} {chars : List Char} (h : WordChars (c :: chars)) :
    c ≠ ')' := by
  rintro rfl
  cases h with
  | start h => exact absurd h (by decide)
  | more _ h _ => exact absurd h (by decide)

theorem NumberChars.head_ne_close {c : Char} {chars : List Char} (h : NumberChars (c :: chars)) :
    c ≠ ')' := by
  rintro rfl
  cases h with
  | start h => exact absurd h (by decide)
  | more _ h => exact absurd h (by simp [continuesNumber, show ')'.isDigit = false by decide])

theorem SymbolChars.endsOpen {chars : List Char} (h : SymbolChars chars) (front : String) :
    EndsOpen (front ++ String.ofList chars) := by
  cases hlast : chars.reverse with
  | nil =>
    rw [SymbolChars, hlast] at h
    rcases h with h | ⟨h, _⟩ <;> cases h
  | cons c rest =>
    have hne : c ≠ ')' := by
      rw [SymbolChars, hlast] at h
      rcases h with h | ⟨h, _⟩
      · exact h.head_ne_close
      · exact h.head_ne_close
    refine endsOpen_append ?_ hne front
    rw [String.toList_ofList, List.getLast?_eq_head?_reverse, hlast]
    rfl

end Token

namespace Session

variable {i j : Interpreter} {scope : ScopeId} {failure : Failure} {line : String}

theorem isIncomplete_of_endsOpen {fault : Fault} (h : EndsOpen fault.message) :
    (Failure.raised fault none).isIncomplete = false := by
  rw [Failure.isIncomplete, h.endsWith, Bool.and_false]

theorem isIncomplete_read_iff (e : ReadError) :
    (Failure.raised (.read e) none).isIncomplete = true ↔
      ∃ position, e = .unclosedList position := by
  cases e with
  | unclosedList position =>
    refine iff_of_true ?_ ⟨position, rfl⟩
    refine endsWith_iff.2 ⟨(position.text ++ ": ").toList, ?_⟩
    rw [← String.toList_append, String.append_assoc]
    rfl
  | unclosedText position =>
    refine iff_of_false ?_ (by simp)
    rw [Bool.not_eq_true]
    exact isIncomplete_of_endsOpen (endsOpen_append (c := '"') rfl (by decide) _)
  | unexpectedClose =>
    refine iff_of_false (fun h => ?_) (by simp)
    exact absurd (endsWith_iff.1 h) (by decide)

theorem isIncomplete_locate (failure : Failure) (position : Position) :
    (failure.locate position).isIncomplete = false := by
  cases failure with
  | exhausted => rfl
  | raised fault inner =>
    cases inner with
    | none => rfl
    | some inner => rfl

theorem eval_eq (x : Datum) (scope : ScopeId) :
    eval x scope = Evaluation.evalStep (evaluator 999999999999) x scope := rfl

/-- Evaluating what was read never fails in a way that asks for more: a list puts its position on
every failure, and of the atoms only a symbol can fail. -/
theorem isIncomplete_eval {source : String} {code : Datum}
    (hread : Datum.read source line = .ok code)
    (hrun : (Session.eval code scope).runFrom i = (.error failure, j)) :
    failure.isIncomplete = false := by
  refine Datum.of_read (P := fun code => ∀ failure j,
    (Session.eval code scope).runFrom i = (.error failure, j) → failure.isIncomplete = false)
    ⟨?_, ?_, ?_⟩ ?_ hread failure j hrun
  · intro failure j h
    cases h
  · intro position items _ failure j h
    rw [eval_eq, Evaluation.evalStep, Action.located] at h
    rcases runFrom_cases (Evaluation.evalList (evaluator 999999999999) scope items) i with
      ⟨value, k, hitems⟩ | ⟨inner, k, hitems⟩
    · rw [runFrom_tryCatch_ok hitems] at h
      cases h
    · rw [runFrom_tryCatch_error hitems] at h
      cases h
      exact isIncomplete_locate inner position
  · intro datum _ failure j h
    cases h
  · intro datum hlexeme failure j h
    cases hlexeme with
    | text => cases h
    | number => cases h
    | @symbol chars hchars =>
      rw [eval_eq, Token.symbolAtom] at h
      cases hlookup : i.scopes.lookup scope (String.ofList chars) with
      | some value =>
        rw [Evaluation.runFrom_evalStep_bound _ hlookup] at h
        cases h
      | none =>
        rw [Evaluation.runFrom_evalStep_unbound _ hlookup] at h
        cases h
        exact isIncomplete_of_endsOpen (hchars.endsOpen _)

/-- Where a line can fail: it is not read, it is rejected, or it is evaluated. -/
theorem evalLine_error_cases (h : (evalLine line scope).runFrom i = (.error failure, j)) :
    (∃ e, Datum.read promptSource line = .error e ∧ failure = .raised (.read e) none ∧ j = i) ∨
      ∃ code, Datum.read promptSource line = .ok code ∧
        ((∃ r, code.infer i.catalogue = .error r ∧ failure = .raised (.rejected r) none ∧ j = i) ∨
          (eval code scope).runFrom i = (.error failure, j)) := by
  cases hread : Datum.read promptSource line with
  | error e =>
    have hfirst : (Session.read promptSource line).runFrom i =
        (.error (.raised (.read e) none), i) := by
      rw [Session.read, hread, runFrom_ofExcept_error]
    rw [evalLine, runFrom_bind_error hfirst] at h
    cases h
    exact .inl ⟨e, rfl, rfl, rfl⟩
  | ok code =>
    have hfirst : (Session.read promptSource line).runFrom i = (.ok code, i) := by
      rw [Session.read, hread, runFrom_ofExcept_ok]
    rw [evalLine, runFrom_bind_ok hfirst] at h
    refine .inr ⟨code, rfl, ?_⟩
    cases hcheck : code.infer i.catalogue with
    | error r =>
      have hsecond : (check code).runFrom i = (.error (.raised (.rejected r) none), i) := by
        rw [check, runFrom_get_bind, hcheck, runFrom_ofExcept_error]
      rw [runFrom_bind_error hsecond] at h
      cases h
      exact .inl ⟨r, rfl, rfl, rfl⟩
    | ok t =>
      have hsecond : (check code).runFrom i = (.ok t, i) := by
        rw [check, runFrom_get_bind, hcheck, runFrom_ofExcept_ok]
      rw [runFrom_bind_ok hsecond] at h
      rcases runFrom_cases (eval code scope) i with ⟨value, k, hvalue⟩ | ⟨inner, k, hinner⟩
      · rw [runFrom_bind_ok hvalue] at h
        cases h
      · rw [runFrom_bind_error hinner] at h
        cases h
        exact .inr hinner

theorem runs_evalLine (line : String) (scope : ScopeId) (i : Interpreter) :
    Runs (Evolves .everything (some scope)) (fun _ => True) (evalLine line scope) i := by
  have hholds : Vocabulary.everything.Holds i := fun _ _ _ _ _ _ => trivial
  refine runs_ofExcept_bind fun code _ => ?_
  refine Runs.bind (runs_get_bind (runs_ofExcept fun _ _ => trivial)) fun _ k hk _ => ?_
  refine ((evaluator_obeys .everything depthLimit).eval (hk.holds hholds) trivial scope).bind
    fun value _ _ _ => ?_
  exact runs_get_bind (runs_pure trivial)

end Session

namespace Prompt

open Session

variable {i j : Interpreter} {scope : ScopeId} {failure : Failure} {input : String}

/-- Whether a text ends inside a list. -/
def endsInside (text : String) : Bool :=
  match Datum.read promptSource text with
  | .error (.unclosedList _) => true
  | _ => false

theorem endsInside_iff {text : String} :
    endsInside text = true ↔
      ∃ position, Datum.read promptSource text = .error (.unclosedList position) := by
  unfold endsInside
  split
  · rename_i position h
    exact iff_of_true rfl ⟨position, h⟩
  · rename_i h
    exact iff_of_false Bool.false_ne_true fun ⟨position, hposition⟩ => h position hposition

theorem evalLine_of_endsInside (h : endsInside input = true) (scope : ScopeId) (i : Interpreter) :
    ∃ failure, (evalLine input scope).runFrom i = (.error failure, i) ∧
      failure.isIncomplete = true := by
  obtain ⟨position, hread⟩ := endsInside_iff.1 h
  refine ⟨.raised (.read (.unclosedList position)) none, runFrom_bind_error ?_,
    (isIncomplete_read_iff _).2 ⟨position, rfl⟩⟩
  rw [Session.read, hread, runFrom_ofExcept_error]

/-- Only reading asks for more, and only for the end of a list. -/
theorem endsInside_of_evalLine (hc : i.catalogue.ReturnsEndOpen)
    (h : (evalLine input scope).runFrom i = (.error failure, j))
    (hincomplete : failure.isIncomplete = true) : endsInside input = true ∧ j = i := by
  rcases evalLine_error_cases h with ⟨e, hread, rfl, rfl⟩ | ⟨code, hread, hcode⟩
  · obtain ⟨position, rfl⟩ := (isIncomplete_read_iff e).1 hincomplete
    exact ⟨endsInside_iff.2 ⟨position, hread⟩, rfl⟩
  · rcases hcode with ⟨r, hr, rfl, -⟩ | hrun
    · have hopen : EndsOpen (Fault.rejected r).message := (code.judgedOpen hc).error r hr
      rw [isIncomplete_of_endsOpen hopen] at hincomplete
      cases hincomplete
    · rw [isIncomplete_eval hread hrun] at hincomplete
      cases hincomplete

/-! ## Chunks -/

/-- Evaluate a text, and print the value or the failure. -/
def evaluate (scope : ScopeId) (text : String) : Action Unit :=
  tryCatch (do Action.printLine (resultMark ++ (← evalLine text scope))) printFailure

/-- The texts that a sequence of events completes, after lines that are pending: lines are joined
until the text does not end inside a list.  An interrupt discards the pending lines, or ends the
prompt if there is nothing to discard. -/
def chunks : List String → List PromptEvent → List String
  | _, [] => []
  | _, .endOfInput :: _ => []
  | pending, .interrupt typed :: rest =>
    if pending = [] ∧ typed = "" then [] else chunks [] rest
  | pending, .line text :: rest =>
    let chunk := "\n".intercalate (pending ++ [text])
    if endsInside chunk then chunks (pending ++ [text]) rest else chunk :: chunks [] rest

/-- The text that stands for pending lines. -/
def joined (pending : List String) : String := String.join (pending.map (· ++ "\n"))

theorem joined_append (pending : List String) (text : String) :
    joined pending ++ text = "\n".intercalate (pending ++ [text]) := by
  induction pending with
  | nil => simp [joined]
  | cons line pending ih =>
    rw [List.cons_append, String.intercalate_cons_of_ne_nil (by simp), ← ih, joined, List.map_cons,
      String.join_cons, joined, String.append_assoc]

theorem joined_concat (pending : List String) (text : String) :
    joined (pending ++ [text]) = joined pending ++ text ++ "\n" := by
  simp [joined, String.append_assoc]

theorem joined_eq_empty_iff {pending : List String} : joined pending = "" ↔ pending = [] := by
  cases pending with
  | nil => simp [joined]
  | cons line pending => simp [joined, String.append_eq_empty_iff]

theorem runFrom_printFailure (failure : Failure) (i : Interpreter) :
    ∃ j, (printFailure failure).runFrom i = (.ok (), j) :=
  ⟨_, rfl⟩

theorem evaluate_of_ok {k : Interpreter} {value : String}
    (h : (evalLine input scope).runFrom i = (.ok value, k)) :
    (evaluate scope input).runFrom i =
      (.ok (), { k with output := k.output ++ (resultMark ++ value ++ "\n") }) := by
  apply runFrom_tryCatch_ok
  rw [runFrom_bind_ok h]
  rfl

theorem evaluate_of_error (h : (evalLine input scope).runFrom i = (.error failure, j)) :
    (evaluate scope input).runFrom i = (printFailure failure).runFrom j :=
  runFrom_tryCatch_error (runFrom_bind_error h)

theorem outcome_evaluate (scope : ScopeId) (text : String) (i : Interpreter) :
    ((evaluate scope text).runFrom i).1 = .ok () := by
  rcases runFrom_cases (evalLine text scope) i with ⟨value, k, hrun⟩ | ⟨failure, k, hrun⟩
  · rw [evaluate_of_ok hrun]
  · obtain ⟨j, hprint⟩ := runFrom_printFailure failure k
    rw [evaluate_of_error hrun, hprint]

theorem respond_of_endsInside (h : endsInside input = true) (scope : ScopeId) (i : Interpreter) :
    (respond input scope).runFrom i = (.ok (input ++ "\n"), i) := by
  obtain ⟨failure, hrun, hincomplete⟩ := evalLine_of_endsInside h scope i
  rw [respond, runFrom_tryCatch_error (runFrom_bind_error hrun), if_pos hincomplete, runFrom_pure]

/-- A text that is complete is evaluated, and nothing is kept. -/
theorem respond_of_complete (hc : i.catalogue.ReturnsEndOpen) (scope : ScopeId)
    (h : endsInside input = false) :
    ∃ j, (respond input scope).runFrom i = (.ok "", j) ∧
      (evaluate scope input).runFrom i = (.ok (), j) := by
  rcases runFrom_cases (evalLine input scope) i with ⟨value, k, hrun⟩ | ⟨failure, k, hrun⟩
  · refine ⟨_, runFrom_tryCatch_ok ?_, evaluate_of_ok hrun⟩
    rw [runFrom_bind_ok hrun]
    rfl
  · have hcomplete : ¬failure.isIncomplete = true := by
      intro hincomplete
      rw [(endsInside_of_evalLine hc hrun hincomplete).1] at h
      cases h
    obtain ⟨j, hprint⟩ := runFrom_printFailure failure k
    refine ⟨j, ?_, (evaluate_of_error hrun).trans hprint⟩
    rw [respond, runFrom_tryCatch_error (runFrom_bind_error hrun), if_neg hcomplete,
      runFrom_bind_ok hprint, runFrom_pure]

theorem catalogue_evaluate (scope : ScopeId) (text : String) (i : Interpreter) :
    ((evaluate scope text).runFrom i).2.catalogue = i.catalogue := by
  have hprint (line : String) (j : Interpreter) :
      Runs (Evolves .everything (some scope)) (fun _ => True) (printLine line) j :=
    (runs_printLine line).mono fun h => .quiet h.toQuiet
  have hruns : Runs (Evolves .everything (some scope)) (fun _ => True) (evaluate scope text) i := by
    refine Runs.tryCatch ?_ fun failure j _ => runs_get_bind (hprint _ j)
    exact (runs_evalLine text scope i).bind fun _ j _ _ => hprint _ j
  exact hruns.1.catalogue_eq

theorem run_of_some {kept next : String} {event : PromptEvent} {rest : List PromptEvent}
    (h : (step scope kept event).runFrom i = (.ok (some next), j)) :
    (run scope kept (event :: rest)).runFrom i = (run scope next rest).runFrom j := by
  rw [run, runFrom_bind_ok h]

/-- A line is kept when the text ends inside a list. -/
theorem step_line_of_endsInside {kept text : String} (h : endsInside (kept ++ text) = true)
    (scope : ScopeId) (i : Interpreter) :
    (step scope kept (.line text)).runFrom i = (.ok (some (kept ++ text ++ "\n")), i) := by
  have hne : kept ++ text ≠ "" := by
    intro heq
    rw [heq] at h
    exact absurd h (by decide)
  rw [step, if_neg hne, runFrom_bind_ok (respond_of_endsInside h scope i), runFrom_pure]

theorem step_line_of_complete (hc : i.catalogue.ReturnsEndOpen) (scope : ScopeId)
    {kept text : String} (hne : kept ++ text ≠ "") (h : endsInside (kept ++ text) = false) :
    ∃ j, (step scope kept (.line text)).runFrom i = (.ok (some ""), j) ∧
      (evaluate scope (kept ++ text)).runFrom i = (.ok (), j) := by
  obtain ⟨j, hrespond, hevaluate⟩ := respond_of_complete hc scope h
  refine ⟨j, ?_, hevaluate⟩
  rw [step, if_neg hne, runFrom_bind_ok hrespond, runFrom_pure]

theorem run_eq_chunks (hc : i.catalogue.ReturnsEndOpen) (scope : ScopeId) (pending : List String)
    (events : List PromptEvent) :
    (run scope (joined pending) events).runFrom i =
      (forM ((chunks pending events).filter (· ≠ "")) (evaluate scope)).runFrom i := by
  -- the induction is on the events; what is kept is what stands for the pending lines
  induction events generalizing pending i with
  | nil => rfl
  | cons event rest ih =>
    cases event with
    | endOfInput => rfl
    | interrupt typed =>
      by_cases hnone : pending = [] ∧ typed = ""
      · obtain ⟨rfl, rfl⟩ := hnone
        rfl
      · have hkept : joined pending ++ typed ≠ "" := by
          rwa [ne_eq, String.append_eq_empty_iff, joined_eq_empty_iff]
        have hstep : (step scope (joined pending) (.interrupt typed)).runFrom i =
            (.ok (some (joined [])), i) := by
          rw [step, if_neg hkept]
          rfl
        rw [run_of_some hstep, ih hc, chunks, if_neg hnone]
    | line text =>
      rw [chunks, ← joined_append]
      cases hinside : endsInside (joined pending ++ text) with
      | true =>
        rw [run_of_some (step_line_of_endsInside hinside scope i), ← joined_concat, ih hc]
        rfl
      | false =>
        by_cases hempty : joined pending ++ text = ""
        · obtain ⟨hpending, rfl⟩ := String.append_eq_empty_iff.1 hempty
          obtain rfl := joined_eq_empty_iff.1 hpending
          exact ih hc []
        · obtain ⟨j, hstep, hevaluate⟩ := step_line_of_complete hc scope hempty hinside
          have hj : j.catalogue = i.catalogue := by
            have hcatalogue := catalogue_evaluate scope (joined pending ++ text) i
            rwa [hevaluate] at hcatalogue
          rw [run_of_some hstep]
          change (run scope (joined []) rest).runFrom j = _
          rw [ih (hj ▸ hc)]
          simp only [Bool.false_eq_true, ↓reduceIte]
          rw [List.filter_cons_of_pos (by exact decide_eq_true hempty), List.forM_cons,
            runFrom_bind_ok hevaluate]

/-- The prompt evaluates every text that it completes once, in order.  A line that is kept leaves
the state as it was. -/
theorem run_evaluates_chunks (h : i.catalogue.IsBuiltin) (scope : ScopeId) :
    (∀ text failure j, (evalLine text scope).runFrom i = (.error failure, j) →
        failure.isIncomplete = true → endsInside text = true ∧ j = i) ∧
      (∀ kept text, endsInside (kept ++ text) = true →
        (∃ failure, (evalLine (kept ++ text) scope).runFrom i = (.error failure, i) ∧
          failure.isIncomplete = true) ∧
        (step scope kept (.line text)).runFrom i = (.ok (some (kept ++ text ++ "\n")), i)) ∧
      (∀ text j, ((evaluate scope text).runFrom j).1 = .ok ()) ∧
      ∀ events, (run scope "" events).runFrom i =
        (forM ((chunks [] events).filter (· ≠ "")) (evaluate scope)).runFrom i := by
  have hc := h.returnsEndOpen
  refine ⟨fun text failure j => endsInside_of_evalLine hc, fun kept text hinside => ?_,
    outcome_evaluate scope, fun events => run_eq_chunks hc scope [] events⟩
  exact ⟨evalLine_of_endsInside hinside scope i, step_line_of_endsInside hinside scope i⟩

theorem run_evaluates_chunks_initial :
    Interpreter.initial.catalogue.IsBuiltin ∧
      (run globalScope "" [.line "(+ 1", .line "2)", .line "(+", .interrupt "3",
        .line "", .line "4", .endOfInput]).runFrom .initial =
        (forM ["(+ 1\n2)", "4"] (evaluate globalScope)).runFrom .initial := by
  refine ⟨.inl rfl, ?_⟩
  have hchunks : (chunks [] [.line "(+ 1", .line "2)", .line "(+", .interrupt "3", .line "",
      .line "4", .endOfInput]).filter (· ≠ "") = ["(+ 1\n2)", "4"] := by decide +kernel
  rw [← hchunks]
  exact (run_evaluates_chunks (.inl rfl) globalScope).2.2.2 _

end Prompt

end Reckoner

import Reckoner.Proofs.Evaluation.Depth
import Reckoner.Session

/-!
# Calls in code and applications from outside

A function can be called by evaluating a list and by applying it to values.  With quoted arguments
the two come to the same: the arguments are what is quoted, without positions, and evaluating them
changes nothing.  The two paths are separate: `evalCall` evaluates the body of a function in place
of the call, and `applyStep` is for everything else and for calls from outside.  The lemma
`evalCall_eq_applyStep` joins them.

What stands at the head of the list is evaluated too.  A function is a `Datum.isConstant` and
evaluates to itself; symbols, lists that are not empty and foreign values do not, and have to be
quoted to be meant as values.
-/

namespace Reckoner

namespace Datum

/-- An expression whose value is a datum without its positions. -/
def quoted (datum : Datum) : Datum := .ofList [.symbol "quote", datum]

/-- Whether a value is an expression whose value it is itself: everything but symbols, lists that
are not empty or have a position, and foreign values. -/
def isConstant : Datum → Bool
  | .symbol _ => false
  | .list position items => position.isNone && items.isEmpty
  | .host _ => false
  | _ => true

end Datum

namespace Evaluation

open Reckoner.Action

variable {p : Datum} {values : List Datum} (depth : ℕ) (scope : ScopeId)

/-- Quoting gives a datum without its positions, and has no effect. -/
theorem eval_quote (position : Option Position) (datum : Datum) :
    (evaluator (depth + 1)).eval (.list position [.symbol "quote", datum]) scope =
      pure datum.erase := by
  have hlist : evalList (evaluator depth) scope [.symbol "quote", datum] = pure datum.erase := by
    have hquote : keyword? "quote" = some .quote := by decide
    rw [evalList_of_keyword? hquote, evalForm]
  cases position with
  | none => exact hlist
  | some position =>
    change located position (evalList (evaluator depth) scope [.symbol "quote", datum]) = _
    rw [hlist]
    rfl

theorem eval_of_isConstant (hp : p.isConstant = true) :
    (evaluator (depth + 1)).eval p scope = pure p := by
  cases p
  case symbol name => cases hp
  case host h => cases hp
  case list position items =>
    simp only [Datum.isConstant, Bool.and_eq_true, Option.isNone_iff_eq_none,
      List.isEmpty_iff] at hp
    obtain ⟨rfl, rfl⟩ := hp
    rfl
  all_goals rfl

/-- Quoted arguments are evaluated without an effect. -/
theorem evalArguments_quoted (values : List Datum) :
    evalArguments (evaluator (depth + 1)) scope (values.map Datum.quoted) =
      pure (values.map Datum.erase) := by
  induction values with
  | nil => rfl
  | cons value rest ih =>
    rw [List.map_cons, evalArguments, Datum.quoted, eval_quote, pure_bind, ih, pure_bind,
      List.map_cons]

/-- A call with quoted arguments evaluates its head and applies the value to them. -/
theorem eval_call (head : Datum) (hhead : headKeyword? head = none)
    (hvalue : (evaluator (depth + 1)).eval head scope = pure p)
    (hvalues : ∀ v ∈ values, v.erase = v) :
    (evaluator (depth + 2)).eval (.ofList (head :: values.map Datum.quoted)) scope =
      (evaluator (depth + 2)).apply p values := by
  have herase : values.map Datum.erase = values := by
    rw [List.map_congr_left hvalues, List.map_id']
  change evalList (evaluator (depth + 1)) scope (head :: values.map Datum.quoted) =
    applyStep (evaluator (depth + 1)) p values
  rw [evalList_of_headKeyword? hhead, evalCall_eq_applyStep, hvalue, pure_bind,
    evalArguments_quoted, pure_bind, herase]

theorem headKeyword?_of_isConstant (hp : p.isConstant = true) : headKeyword? p = none := by
  cases p
  case symbol name => cases hp
  all_goals rfl

namespace Activity

variable {a b : Activity} {i : Interpreter} {result : Except Failure Datum × Interpreter}

/-- Activities that do the same at all but the least depths come to the same results. -/
theorem Ends.of_perform_eq
    (hsame : ∀ depth, a.perform (evaluator (depth + 2)) = b.perform (evaluator (depth + 2)))
    (h : a.Ends i result) : b.Ends i result := by
  obtain ⟨depth, hrun⟩ := h.deeper
  refine ⟨h.1, depth + 2, ?_⟩
  rw [← hsame]
  exact hrun (depth + 2) (Nat.le_add_right depth 2)

theorem ends_iff_of_perform_eq
    (hsame : ∀ depth, a.perform (evaluator (depth + 2)) = b.perform (evaluator (depth + 2))) :
    a.Ends i result ↔ b.Ends i result :=
  ⟨.of_perform_eq hsame, .of_perform_eq fun depth => (hsame depth).symm⟩

end Activity

/-- Calls in code agree with applications from outside.  If `p` is a constant, which every function
is, then evaluating the list of `p` and quoted values in any scope comes to the same outcome and the
same state as applying `p` to the values, and comes to one whenever that does; in a session the two
are the same action.  Whatever `p` is, the same holds with `p` quoted at the head of the list. -/
theorem call_agrees_with_apply (hvalues : ∀ v ∈ values, v.erase = v) :
    (p.isConstant = true →
      (∀ i result, (Activity.eval (.ofList (p :: values.map Datum.quoted)) scope).Ends i result ↔
        (Activity.apply p values).Ends i result) ∧
      Session.eval (.ofList (p :: values.map Datum.quoted)) scope = Session.apply p values) ∧
    (p.erase = p →
      (∀ i result,
        (Activity.eval (.ofList (p.quoted :: values.map Datum.quoted)) scope).Ends i result ↔
          (Activity.apply p values).Ends i result) ∧
      Session.eval (.ofList (p.quoted :: values.map Datum.quoted)) scope =
        Session.apply p values) := by
  have hlimit : Session.depthLimit = 999999999998 + 2 := rfl
  refine ⟨fun hp => ?_, fun hp => ?_⟩
  · have hsame (depth : ℕ) := eval_call depth scope p (headKeyword?_of_isConstant hp)
      (eval_of_isConstant depth scope hp) hvalues
    refine ⟨fun i result => Activity.ends_iff_of_perform_eq hsame, ?_⟩
    rw [Session.eval, Session.apply, Session.unlimited, hlimit]
    exact hsame _
  · have hsame (depth : ℕ) := eval_call depth scope p.quoted rfl
      ((eval_quote depth scope none p).trans (congrArg pure hp)) hvalues
    refine ⟨fun i result => Activity.ends_iff_of_perform_eq hsame, ?_⟩
    rw [Session.eval, Session.apply, Session.unlimited, hlimit]
    exact hsame _

/-- A function of all its arguments, called with a list and a text. -/
theorem call_agrees_with_apply_collected :
    let p : Datum := .closure (.symbol "a") (.symbol "a") globalScope
    let values : List Datum := [.ofList [.number (.int64 1)], .text "b"]
    let opened := Interpreter.initial.openCall [("a", .ofList values)] globalScope
    p.isConstant = true ∧ (∀ v ∈ values, v.erase = v) ∧
      (Activity.eval (.ofList (p :: values.map Datum.quoted)) globalScope).Ends .initial
        (.ok (.ofList values), opened) := by
  intro p values opened
  have hvalues : ∀ v ∈ values, v.erase = v := by
    refine List.forall_mem_cons.2 ⟨rfl, List.forall_mem_singleton.2 rfl⟩
  have happly : (Activity.apply p values).Ends .initial (.ok (.ofList values), opened) :=
    ⟨by simp, 2, rfl⟩
  have hp : p.isConstant = true := rfl
  obtain ⟨hends, _⟩ := (call_agrees_with_apply globalScope hvalues).1 hp
  exact ⟨hp, hvalues, (hends _ _).2 happly⟩

/-- A symbol is no function, but at the head of a list it stands for its value. -/
theorem not_call_agrees_with_apply :
    ¬∀ (p : Datum) (values : List Datum) (scope : ScopeId) (i : Interpreter)
      (result : Except Failure Datum × Interpreter), (∀ v ∈ values, v.erase = v) →
      ((Activity.eval (.ofList (p :: values.map Datum.quoted)) scope).Ends i result ↔
        (Activity.apply p values).Ends i result) := by
  intro hagree
  let values : List Datum := [.number (.int64 1)]
  have heval : (Activity.eval (.ofList (.symbol "list" :: values.map Datum.quoted))
      globalScope).Ends .initial (.ok (.ofList values), .initial) :=
    ⟨by simp, 3, rfl⟩
  have happly : (Activity.apply (.symbol "list") values).Ends .initial
      (.error (.raised (.unknownFunction "list") none), .initial) :=
    ⟨by simp, 1, rfl⟩
  have hsame := (hagree _ _ _ _ _ (List.forall_mem_singleton.2 rfl)).1 heval
  cases congrArg Prod.fst (hsame.unique happly)

end Evaluation

end Reckoner

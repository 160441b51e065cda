import Reckoner.Interpreter

/-!
# Help about the declared functions
-/

namespace Reckoner.Builtin

/-- The text up to the first end of a line. -/
def firstLine (text : String) : String := String.ofList (text.toList.takeWhile (· != '\n'))

/-- Print an entry of the catalogue: a heading, or a name with what the function is for. -/
def printEntry (c : Catalogue) (entry : String) : Action Unit :=
  match Catalogue.heading? entry with
  | some title => do
    Action.printLine ""
    Action.printLine ("-- " ++ title ++ " --")
  | none =>
    if entry = "" then Action.fail (.missing 0 0)
    else
      let description := match c.find? entry with
        | some d => d.description
        | none => ""
      Action.printLine ("  " ++ entry ++ ": " ++ firstLine description)

/-- Print all functions. -/
def printOverview : Action Unit := do
  let c := (← get).catalogue
  Action.printLine "Available scm functions:"
  for entry in c.entries do
    printEntry c entry
  Action.printLine ""
  Action.printLine
    "get further information by typing (help \"functionname\") to get more info"

/-- Print what is known about a function. -/
def printTopic (d : Declaration) : Action Unit := do
  Action.printLine ("Help for: " ++ d.name)
  Action.printLine "==="
  Action.printLine ""
  Action.printLine d.description
  Action.printLine ""
  Action.printLine
    ("Allowed nø of parameters:  " ++ Text.ofInteger d.least ++ " - " ++ Text.ofInteger d.most)
  Action.printLine ""
  for p in d.parameters do
    Action.printLine (" - " ++ p.name ++ " (" ++ p.type.text ++ "): " ++ p.description)
  Action.printLine ""

/-- The declaration that a value names or is. -/
def topic? (c : Catalogue) : Datum → Option Declaration
  | .text name => c.find? name
  | .symbol name => c.find? name
  | .native f => c.findNative? f
  | _ => none

/-- Print help about a value, or all functions for nil. -/
def explain : Datum → Action Unit
  | .nil => printOverview
  | value => do
    match topic? (← get).catalogue value with
    | some d => printTopic d
    | none => Action.fail (.unknownTopic value)

end Reckoner.Builtin

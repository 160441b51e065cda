import Reckoner.Datum.Basic

/-!
# Printing data

`serialize` writes a value so that reading and evaluating the text gives the value back: texts are
quoted, and every kind of number that plain digits would not restore is written as a call of its
constructor.  `display` is the text of a value for people, and `plain` the text of a value that help
knows nothing about.  Only `plain` shows where code was read, and shows it in place of the code.

A native function is written by a name, which depends on the catalogue and on the scopes; the two
printers that need it take it as an argument.
-/

namespace Reckoner.Datum

/-- The escape of a character inside a written text. -/
def escapeChar : Char → List Char
  | '\\' => ['\\', '\\']
  | '"' => ['\\', '"']
  | '\r' => ['\\', 'r']
  | '\n' => ['\\', 'n']
  | c => [c]

/-- A text between quotes, such that reading it gives the text. -/
def writeText (s : String) : String :=
  String.ofList ('"' :: s.toList.flatMap escapeChar ++ ['"'])

/-- A double that reads back as a double: whole numbers get a fraction, and what has no literal is
written as a call. -/
def writeFloat (x : Binary64) : String :=
  let digits := x.format Binary64.towerLayout
  match x with
  | .finite .. =>
    if digits.toList.any (fun c => c == '.' || c == 'e') then digits else digits ++ ".0"
  | _ => "(float \"" ++ digits ++ "\")"

/-- A number that reads back as the same number. -/
def writeNumber : Number → String
  | .int32 n => "(int32 " ++ (Number.int32 n).text ++ ")"
  | .int64 n => (Number.int64 n).text
  | .float64 x => writeFloat x
  | .bigint n => "(bigint \"" ++ (Number.bigint n).text ++ "\")"
  | .decimal d => "(decimal \"" ++ d.fixed ++ "\")"

mutual

/-- The text that reads back as a value. -/
def serialize (nameOf : Native → String) : Datum → String
  | .nil => "nil"
  | .bool b => if b then "true" else "false"
  | .text s => writeText s
  | .symbol name => name
  | .number n => writeNumber n
  | .list _ items => "(" ++ serializeItems nameOf items ++ ")"
  | .closure parameters body _ =>
    "(lambda " ++ serialize nameOf parameters ++ " " ++ serialize nameOf body ++ ")"
  | .native f => nameOf f
  | .reference r => r.text
  | .host h => h.text

/-- Items with a space between them. -/
def serializeItems (nameOf : Native → String) : List Datum → String
  | [] => ""
  | [item] => serialize nameOf item
  | item :: rest => serialize nameOf item ++ " " ++ serializeItems nameOf rest

end

mutual

/-- The text of a value for people. -/
def display (nameOf : Native → String) : Datum → String
  | .nil => "nil"
  | .bool b => if b then "true" else "false"
  | .text s => s
  | .symbol name => name
  | .number n => n.fixedText
  | .list _ items => "(" ++ displayItems nameOf items ++ ")"
  | .closure parameters body scope => serialize nameOf (.closure parameters body scope)
  | .native _ => "[native func]"
  | .reference r => r.text
  | .host h => h.text

/-- Items with a space between them. -/
def displayItems (nameOf : Native → String) : List Datum → String
  | [] => ""
  | [item] => display nameOf item
  | item :: rest => display nameOf item ++ " " ++ displayItems nameOf rest

end

mutual

/-- The text of a value with its parts as they are: code that was read from a text is its position,
and a function is its parameters, its body and its scope.  Addresses are not modelled; a word stands
in their place. -/
def plain : Datum → String
  | .nil => "<nil>"
  | .bool b => if b then "true" else "false"
  | .text s => s
  | .symbol name => name
  | .number n => n.text
  | .list (some position) _ => position.text
  | .list none items => "[" ++ plainItems items ++ "]"
  | .closure parameters body _ =>
    "\x7b" ++ plain parameters ++ " " ++ plain body ++ " ADDRESS\x7d"
  | .native _ => "ADDRESS"
  | .reference r => r.text
  | .host h => h.text

/-- Items with a space between them. -/
def plainItems : List Datum → String
  | [] => ""
  | [item] => plain item
  | item :: rest => plain item ++ " " ++ plainItems rest

end

end Reckoner.Datum

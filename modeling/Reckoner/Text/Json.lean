import Reckoner.Text.Quoted

/-!
# Texts in JSON

A text is put between quotes.  Besides what JSON requires, the characters that are special in markup
and the two line separators are written by their code, so that the text can stand inside a page.
-/

namespace Reckoner.Text

/-- The short escape of a character that has one. -/
def jsonEscapeLetter : Char → Option Char
  | '"' => some '"'
  | '\\' => some '\\'
  | '\x08' => some 'b'
  | '\x0c' => some 'f'
  | '\n' => some 'n'
  | '\r' => some 'r'
  | '\t' => some 't'
  | _ => none

/-- Whether a character without a short escape is written by its code. -/
def jsonEscapesByCode (c : Char) : Bool :=
  c.toNat < 0x20 || c == '<' || c == '>' || c == '&' || c.toNat == 0x2028 || c.toNat == 0x2029

/-- One character of a text in JSON. -/
def jsonChar (c : Char) : List Char :=
  match jsonEscapeLetter c with
  | some letter => ['\\', letter]
  | none => if jsonEscapesByCode c then '\\' :: 'u' :: hexadecimal 4 c.toNat else [c]

/-- A text in JSON. -/
def json (text : String) : String :=
  String.ofList ('"' :: text.toList.flatMap jsonChar ++ ['"'])

end Reckoner.Text

import Reckoner.Text.Printable

/-!
# Quoted text in messages

A text that a message shows is put between double quotes.  The quote and the backslash are escaped
with a backslash, seven controls have a letter of their own, and every other character that is not
printable is written by its code: two hexadecimal digits below U+0080, four in the basic plane,
eight above it.
-/

namespace Reckoner.Text

/-- The hexadecimal digits of a number, with leading zeros up to the width. -/
def hexadecimal (width n : Nat) : List Char :=
  let digits := Nat.toDigits 16 n
  List.replicate (width - digits.length) '0' ++ digits

/-- The escape letter of a control that has one. -/
def controlLetter : Char → Option Char
  | '\x07' => some 'a'
  | '\x08' => some 'b'
  | '\x0c' => some 'f'
  | '\n' => some 'n'
  | '\r' => some 'r'
  | '\t' => some 't'
  | '\x0b' => some 'v'
  | _ => none

/-- One character inside quotes. -/
def quoteChar (c : Char) : List Char :=
  if c = '"' ∨ c = '\\' then ['\\', c]
  else if isPrintable c then [c]
  else match controlLetter c with
    | some letter => ['\\', letter]
    | none =>
      if c.toNat < 0x80 then '\\' :: 'x' :: hexadecimal 2 c.toNat
      else if c.toNat < 0x10000 then '\\' :: 'u' :: hexadecimal 4 c.toNat
      else '\\' :: 'U' :: hexadecimal 8 c.toNat

/-- A text between double quotes. -/
def quoted (text : String) : String :=
  String.ofList ('"' :: text.toList.flatMap quoteChar ++ ['"'])

end Reckoner.Text

import Reckoner.Word

/-!
# Integers as text

An integer is written in base ten with a minus sign when it is negative.  Reading also admits a
plus sign and leading zeros, and takes ASCII digits only.  `scanNatural` reads digits against an
upper limit and reports whichever fault comes first from the left: a character that is no digit, or
a value above the limit.
-/

namespace Reckoner.Text

/-- The value of an ASCII digit. -/
def digitValue (c : Char) : Nat := c.toNat - '0'.toNat

/-- The value of a text of ASCII digits, most significant first. -/
def valueOfDigits (digits : List Char) : Nat :=
  digits.foldl (fun value c => 10 * value + digitValue c) 0

/-- The base-ten text of an integer. -/
def ofInteger (n : Int) : String :=
  if n < 0 then "-" ++ Nat.repr n.natAbs else Nat.repr n.natAbs

/-- A non-empty text of ASCII digits. -/
def readNatural (text : List Char) : Option Nat :=
  if text.isEmpty then none
  else if text.all Char.isDigit then some (valueOfDigits text)
  else none

/-- An integer with an optional sign. -/
def readInteger : List Char → Option Int
  | '-' :: digits => (readNatural digits).map fun n => -(n : Int)
  | '+' :: digits => (readNatural digits).map fun n => (n : Int)
  | digits => (readNatural digits).map fun n => (n : Int)

/-- Why a bounded integer could not be read. -/
inductive ScanFault where
  /-- Something other than a digit, or nothing at all. -/
  | notNumeric
  /-- The value exceeds the limit. -/
  | tooLarge
deriving DecidableEq, Repr

/-- Read digits after a value already scanned.  The first fault from the left wins. -/
def scanDigits (limit : Nat) : Nat → List Char → Except ScanFault Nat
  | value, [] => .ok value
  | value, c :: rest =>
    if c.isDigit then
      let next := 10 * value + digitValue c
      if next > limit then .error .tooLarge else scanDigits limit next rest
    else .error .notNumeric

/-- A non-empty text of digits whose value stays within the limit at every digit. -/
def scanNatural (limit : Nat) (text : List Char) : Except ScanFault Nat :=
  if text.isEmpty then .error .notNumeric else scanDigits limit 0 text

/-- A signed integer of 32 bits.  The digits are scanned as an unsigned word first. -/
def scanInt32 (text : List Char) : Except ScanFault Int :=
  let scan (digits : List Char) (negative : Bool) : Except ScanFault Int := do
    let magnitude ← scanNatural 4294967295 digits
    let value : Int := if negative then -(magnitude : Int) else magnitude
    if FitsInt32 value then .ok value else .error .tooLarge
  match text with
  | '-' :: digits => scan digits true
  | '+' :: digits => scan digits false
  | digits => scan digits false

end Reckoner.Text

import Reckoner.Binary64.Text
import Reckoner.Decimal.Text
import Reckoner.Number.Kind

/-!
# Numbers

A number is a value of one of the five kinds.  Machine integers wrap; unbounded integers and
decimals are exact; doubles round.
-/

namespace Reckoner

/-- A number of the tower. -/
inductive Number where
  | int32 (n : Int32)
  | int64 (n : Int64)
  | float64 (x : Binary64)
  | bigint (n : Int)
  | decimal (d : Decimal)
deriving DecidableEq

namespace Number

instance : Inhabited Number := ⟨.int64 0⟩

/-- The kind of a number. -/
def kind : Number → Kind
  | .int32 _ => .int32
  | .int64 _ => .int64
  | .float64 _ => .float64
  | .bigint _ => .bigint
  | .decimal _ => .decimal

/-- The text of a number, without zeros at the end of a fraction. -/
def text : Number → String
  | .int32 n => Text.ofInteger n.toInt
  | .int64 n => Text.ofInteger n.toInt
  | .float64 x => x.format Binary64.towerLayout
  | .bigint n => Text.ofInteger n
  | .decimal d => d.text

/-- The text of a number that keeps the scale of a decimal. -/
def fixedText : Number → String
  | .decimal d => d.fixed
  | number => number.text

/-- The integer that a number is, if it is one. -/
def integer? : Number → Option Int
  | .int32 n => some n.toInt
  | .int64 n => some n.toInt
  | .float64 x => x.integer?
  | .bigint n => some n
  | .decimal d => d.integer?

/-- The exact value as a decimal; an infinity and not-a-number have none. -/
def decimal? : Number → Option Decimal
  | .int32 n => some (Decimal.ofInteger n.toInt)
  | .int64 n => some (Decimal.ofInteger n.toInt)
  | .float64 x => Decimal.ofBinary64 x
  | .bigint n => some (Decimal.ofInteger n)
  | .decimal d => some d

/-- The nearest double. -/
def toBinary64 : Number → Binary64
  | .int32 n => Binary64.ofInteger n.toInt
  | .int64 n => Binary64.ofInteger n.toInt
  | .float64 x => x
  | .bigint n => Binary64.ofInteger n
  | .decimal d => d.toBinary64

/-- A small integer in a given kind. -/
def ofKind (k : Kind) (n : Int) : Number :=
  match k with
  | .int32 => .int32 (Int32.ofInt n)
  | .int64 => .int64 (Int64.ofInt n)
  | .float64 => .float64 (Binary64.ofInteger n)
  | .bigint => .bigint n
  | .decimal => .decimal (Decimal.ofInteger n)

end Number

/-- A small integer in the kind that a byte names, a decimal when it names none. -/
def KindCode.number (k : KindCode) (n : Int) : Number :=
  Number.ofKind (k.kind?.getD .decimal) n

end Reckoner

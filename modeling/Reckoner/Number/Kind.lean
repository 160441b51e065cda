/-!
# Kinds of numbers

Five representations, ordered by what they can hold: the machine integers below both the doubles
and the unbounded integers, and those two below the decimals.  `promote` is the join of that order:
the narrowest kind in which two numbers can be computed together.

A `KindCode` is a kind as an embedding program names it, by a byte.  Bytes that name no kind still
have a name and count as exact, but they cannot be promoted.
-/

namespace Reckoner

/-- The representation of a number. -/
inductive Kind where
  | int32
  | int64
  | float64
  | bigint
  | decimal
deriving DecidableEq, Repr

namespace Kind

/-- The name of a kind, as scripts and messages spell it. -/
def name : Kind → String
  | .int32 => "int32"
  | .int64 => "int64"
  | .float64 => "float64"
  | .bigint => "bigint"
  | .decimal => "decimal"

/-- The name of the type of its numbers, as messages about operands show it. -/
def typeName : Kind → String
  | .int32 => "numeric.Int32"
  | .int64 => "numeric.Int64"
  | .float64 => "numeric.Float64"
  | .bigint => "numeric.BigInt"
  | .decimal => "numeric.Decimal"

/-- Whether numbers of the kind carry no rounding error. -/
def exact : Kind → Bool
  | .float64 => false
  | _ => true

/-- The kind in which two numbers are computed.  A double is inexact and an unbounded integer has no
bound, so only the decimals hold both. -/
def promote : Kind → Kind → Kind
  | .decimal, _ => .decimal
  | _, .decimal => .decimal
  | .float64, .bigint => .decimal
  | .bigint, .float64 => .decimal
  | .bigint, _ => .bigint
  | _, .bigint => .bigint
  | .float64, _ => .float64
  | _, .float64 => .float64
  | .int64, _ => .int64
  | _, .int64 => .int64
  | .int32, .int32 => .int32

@[simp] theorem promote_self (k : Kind) : promote k k = k := by cases k <;> rfl

theorem promote_comm (a b : Kind) : promote a b = promote b a := by cases a <;> cases b <;> rfl

theorem promote_assoc (a b c : Kind) :
    promote (promote a b) c = promote a (promote b c) := by
  cases a <;> cases b <;> cases c <;> rfl

end Kind

/-- A kind named by a byte. -/
structure KindCode where
  code : UInt8
deriving DecidableEq, Repr

namespace KindCode

/-- The kind that a byte names. -/
def kind? (k : KindCode) : Option Kind :=
  match k.code.toNat with
  | 0 => some .int32
  | 1 => some .int64
  | 2 => some .float64
  | 3 => some .bigint
  | 4 => some .decimal
  | _ => none

/-- The number of kinds. -/
def count : Nat := 5

/-- The name of a kind, or the byte itself. -/
def name (k : KindCode) : String :=
  match k.kind? with
  | some kind => kind.name
  | none => "kind(" ++ Nat.repr k.code.toNat ++ ")"

/-- Whether the byte names a kind without rounding error; only the doubles have any. -/
def exact (k : KindCode) : Bool :=
  match k.kind? with
  | some kind => kind.exact
  | none => true

end KindCode

end Reckoner

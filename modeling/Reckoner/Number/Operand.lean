import Reckoner.Number.Comparison
import Reckoner.Number.Conversion

/-!
# Operands

Operations are applied to values of every sort.  An operand is a number of the tower, a wide number
as an embedding program builds it, a reference to one, or something else, of which only the name of
its type matters.

A wide number may lack its internal value, and then counts as zero; a reference may be empty, and
then is no number.  `Operand.accept` is the one place that looks at either.

Operands are checked before anything is computed, the first one first, and the failure names the
position: 1 or 2 for two operands, 0 for a single one.
-/

namespace Reckoner

/-- An integer or a decimal of any size, as an embedding program builds it. -/
inductive Wide where
  | bigint (internal : Option Int)
  | decimal (internal : Option Decimal)

namespace Wide

/-- The integer inside; an absent one is zero. -/
def big (internal : Option Int) : Int := internal.getD 0

/-- The decimal inside; an absent one is zero without a fraction. -/
def scaled (internal : Option Decimal) : Decimal := internal.getD (Decimal.ofInteger 0)

/-- The number of the tower. -/
def number : Wide → Number
  | .bigint internal => .bigint (big internal)
  | .decimal internal => .decimal (scaled internal)

end Wide

/-- A value as arithmetic sees it. -/
inductive Operand where
  | number (n : Number)
  | wide (w : Wide)
  /-- A place for a wide number, which may be empty. -/
  | reference (typeName : String) (target : Option Wide)
  | other (typeName : String)

/-- A failure of an operation that may also be asked for a kind that does not exist. -/
inductive ConversionError where
  | number (e : NumberError)
  /-- A byte that names no kind, where a kind is looked up. -/
  | noSuchKind (code : KindCode)

namespace Operand

/-- The number that an operand is, or else the name of its type. -/
def accept : Operand → Except String Number
  | .number n => .ok n
  | .wide w => .ok w.number
  | .reference _ (some w) => .ok w.number
  | .reference typeName none => .error typeName
  | .other typeName => .error typeName

/-- The number that an operand is. -/
def number? (a : Operand) : Option Number := a.accept.toOption

/-- Apply an operation to one operand. -/
def unary {α : Type} (operator : String) (a : Operand) (f : Number → Except NumberError α) :
    Except NumberError α :=
  match a.accept with
  | .ok n => f n
  | .error typeName => .error (.operand operator 0 typeName)

/-- Apply an operation to two operands. -/
def binary {α : Type} (operator : String) (a b : Operand)
    (f : Number → Number → Except NumberError α) : Except NumberError α :=
  match a.accept with
  | .error typeName => .error (.operand operator 1 typeName)
  | .ok m =>
    match b.accept with
    | .error typeName => .error (.operand operator 2 typeName)
    | .ok n => f m n

section

variable {α : Type} {a b : Operand} {m n : Number} {typeName : String} (operator : String)

theorem unary_of_accept (f : Number → Except NumberError α) (ha : a.accept = .ok m) :
    unary operator a f = f m := by
  rw [unary, ha]

theorem unary_of_refused (f : Number → Except NumberError α) (ha : a.accept = .error typeName) :
    unary operator a f = .error (.operand operator 0 typeName) := by
  rw [unary, ha]

theorem binary_of_accept (f : Number → Number → Except NumberError α) (ha : a.accept = .ok m)
    (hb : b.accept = .ok n) : binary operator a b f = f m n := by
  rw [binary, ha, hb]

theorem binary_of_first_refused (f : Number → Number → Except NumberError α)
    (ha : a.accept = .error typeName) :
    binary operator a b f = .error (.operand operator 1 typeName) := by
  rw [binary, ha]

theorem binary_of_second_refused (f : Number → Number → Except NumberError α)
    (ha : a.accept = .ok m) (hb : b.accept = .error typeName) :
    binary operator a b f = .error (.operand operator 2 typeName) := by
  rw [binary, ha, hb]

@[simp] theorem unary_number (a : Number) (f : Number → Except NumberError α) :
    unary operator (.number a) f = f a := rfl

@[simp] theorem binary_number (a b : Number) (f : Number → Number → Except NumberError α) :
    binary operator (.number a) (.number b) f = f a b := rfl

end

/-- Sum. -/
def add (a b : Operand) : Except NumberError Number := binary "+" a b Number.add

/-- Difference. -/
def sub (a b : Operand) : Except NumberError Number := binary "-" a b Number.sub

/-- Product. -/
def mul (a b : Operand) : Except NumberError Number := binary "*" a b Number.mul

/-- Quotient. -/
def div (a b : Operand) : Except NumberError Number := binary "/" a b Number.div

/-- Equality by value. -/
def equal (a b : Operand) : Except NumberError Bool :=
  binary "=" a b fun a b => .ok (a.equal b)

/-- Strictly less by value. -/
def less (a b : Operand) : Except NumberError Bool :=
  binary "<" a b fun a b => .ok (a.less b)

/-- Less or equal by value; the check of its operands is that of strictly less. -/
def lessEqual (a b : Operand) : Except NumberError Bool :=
  binary "<" a b fun a b => .ok (a.lessEqual b)

/-- The product of an operand with itself. -/
def square (a : Operand) : Except NumberError Number := unary "square" a Number.square

/-- Square root. -/
def sqrt (a : Operand) : Except NumberError Number := unary "sqrt" a Number.sqrt

/-- The negative. -/
def neg (a : Operand) : Except NumberError Number := unary "neg" a fun a => .ok a.neg

/-- Convert an operand to a kind. -/
def convert (a : Operand) (k : Kind) : Except NumberError Number :=
  unary k.name a fun a => a.convert k

/-- Convert an operand to the kind that a byte names. -/
def convertToCode (a : Operand) (k : KindCode) : Except ConversionError Number :=
  match k.kind? with
  | some kind => (a.convert kind).mapError .number
  | none =>
    match a.accept with
    | .ok _ => .error (.noSuchKind k)
    | .error typeName => .error (.number (.operand k.name 0 typeName))

end Operand

/-- The kind in which two kinds named by bytes are computed.  The first byte is looked up first. -/
def KindCode.promote (a b : KindCode) : Except KindCode Kind :=
  match a.kind? with
  | none => .error a
  | some kindA =>
    match b.kind? with
    | none => .error b
    | some kindB => .ok (kindA.promote kindB)

end Reckoner

/-!
# Types of parameters and results

A type is written as alternatives with bars between them.  The single alternative `any` fits
everything and is fitted by everything; an `int` also fits where a `number` is required.
-/

namespace Reckoner

/-- The alternatives of a type. -/
structure TypeExpr where
  alternatives : List String
deriving DecidableEq, Repr

namespace TypeExpr

/-- The type that a text writes. -/
def ofText (text : String) : TypeExpr := ⟨(text.toList.splitOn '|').map String.ofList⟩

/-- The text of a type. -/
def text (t : TypeExpr) : String := String.intercalate "|" t.alternatives

/-- The type of everything. -/
def any : TypeExpr := ⟨["any"]⟩

/-- The types that expressions can have. -/
def nil : TypeExpr := ⟨["nil"]⟩
def string : TypeExpr := ⟨["string"]⟩
def int : TypeExpr := ⟨["int"]⟩
def number : TypeExpr := ⟨["number"]⟩
def bool : TypeExpr := ⟨["bool"]⟩
def func : TypeExpr := ⟨["func"]⟩
def list : TypeExpr := ⟨["list"]⟩

/-- Whether one alternative may stand where another is required. -/
def alternativeFits (given required : String) : Bool :=
  required == given || (required == "number" && given == "int")

/-- Whether a value of the given type may stand where a type is required: some alternative has to
fit some alternative. -/
def fits (given required : TypeExpr) : Bool :=
  given == any || required == any ||
    required.alternatives.any fun r => given.alternatives.any fun g => alternativeFits g r

end TypeExpr

end Reckoner

import Reckoner.Binary64.Shortest

/-!
# Doubles as text

The digits are the fewest that read back.  A `Layout` says which decimal exponents are written in
scientific form: those below one bound or from another bound on.  Scientific form has one digit
before the point, no point when that is the only digit, and a signed exponent of at least two
digits; positional form has no exponent, no zeros after the last digit of a fraction and no point
for whole numbers.
-/

namespace Reckoner

namespace Binary64

/-- Which decimal exponents of the first digit are written in scientific form. -/
structure Layout where
  scientificBelow : Int
  scientificFrom : Int

/-- Doubles of the number tower: positional from one ten-thousandth up to below a million. -/
def towerLayout : Layout := ⟨-4, 6⟩

/-- Doubles that belong to the embedding program: positional up to below `10 ^ 21`. -/
def hostLayout : Layout := ⟨-4, 21⟩

/-- A decimal exponent with its sign and at least two digits. -/
def exponentText (exponent : Int) : String :=
  let digits := Nat.repr exponent.natAbs
  (if exponent < 0 then "e-" else "e+") ++ (if digits.length < 2 then "0" ++ digits else digits)

/-- Digits with the point after the first one. -/
def scientificText (digits : List Char) (exponent : Int) : String :=
  let mantissa := match digits with
    | first :: second :: rest => first :: '.' :: second :: rest
    | short => short
  String.ofList mantissa ++ exponentText exponent

/-- Digits in positional notation, where the first digit counts `10 ^ exponent`. -/
def positionalText (digits : List Char) (exponent : Int) : String :=
  if exponent < 0 then
    String.ofList ('0' :: '.' :: List.replicate (-exponent - 1).toNat '0' ++ digits)
  else
    let whole := exponent.toNat + 1
    if digits.length ≤ whole then
      String.ofList (digits ++ List.replicate (whole - digits.length) '0')
    else
      String.ofList (digits.take whole ++ '.' :: digits.drop whole)

/-- The text of a double in a layout. -/
def format (layout : Layout) : Binary64 → String
  | .nan => "NaN"
  | .infinite negative => if negative then "-Inf" else "+Inf"
  | .finite negative mantissa exponent _ =>
    let sign := if negative then "-" else ""
    let decimal := shortest mantissa exponent
    let digits := (Nat.repr decimal.digits).toList
    let first : Int := decimal.exponent + digits.length - 1
    if mantissa = 0 then sign ++ "0"
    else if first < layout.scientificBelow ∨ layout.scientificFrom ≤ first then
      sign ++ scientificText digits first
    else sign ++ positionalText digits first

end Binary64

end Reckoner

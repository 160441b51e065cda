import Reckoner.Binary64.Rounding
import Reckoner.Text.Integer

/-!
# Reading doubles

A literal is an optional sign followed by one of

* `inf`, `infinity` or (without a sign) `nan`, in any mixture of cases;
* decimal digits with at most one point, and an optional exponent after `e`;
* `0x`, hexadecimal digits with at most one point, and an exponent after `p`, which is a power of
  two and must be there.

Single underscores may stand between digits, and after `0x`.  The value is rounded once, to the
nearest double; a finite literal that rounds to an infinity is refused.
-/

namespace Reckoner.Binary64

/-- Why a literal is refused. -/
inductive LiteralFault where
  | syntaxFault
  | outOfRange
deriving DecidableEq, Repr

/-- The mantissa and exponent of a literal as it is written. -/
structure Literal where
  negative : Bool
  hexadecimal : Bool
  /-- The digits of the mantissa without the point. -/
  mantissa : Nat
  /-- How many of the digits stand after the point. -/
  fraction : Nat
  exponent : Int

/-- An optional sign. -/
def takeSign : List Char → Bool × List Char
  | '-' :: rest => (true, rest)
  | '+' :: rest => (false, rest)
  | rest => (false, rest)

/-- The value of a digit in base ten or sixteen. -/
def literalDigit (hexadecimal : Bool) (c : Char) : Option Nat :=
  if c.isDigit then some (Text.digitValue c)
  else if hexadecimal then
    let lower := c.toLower
    if 'a' ≤ lower ∧ lower ≤ 'f' then some (lower.toNat - 'a'.toNat + 10) else none
  else none

/-- What has been read of a mantissa. -/
structure MantissaScan where
  value : Nat := 0
  digits : Nat := 0
  fraction : Nat := 0
  point : Bool := false

/-- Read digits, underscores and at most one point; stop at anything else. -/
def scanMantissa (hexadecimal : Bool) : MantissaScan → List Char → MantissaScan × List Char
  | scan, [] => (scan, [])
  | scan, c :: rest =>
    if c = '_' then scanMantissa hexadecimal scan rest
    else if c = '.' ∧ scan.point = false then
      scanMantissa hexadecimal { scan with point := true } rest
    else match literalDigit hexadecimal c with
      | some digit =>
        scanMantissa hexadecimal
          { scan with
            value := (if hexadecimal then 16 else 10) * scan.value + digit
            digits := scan.digits + 1
            fraction := if scan.point then scan.fraction + 1 else scan.fraction } rest
      | none => (scan, c :: rest)

/-- The digits of an exponent, of which there must be one at the start. -/
def scanExponent (text : List Char) : Option (Int × List Char) :=
  let (negative, rest) := takeSign text
  match rest with
  | c :: _ =>
    if c.isDigit then
      let digits := rest.takeWhile fun c => c.isDigit || c == '_'
      let value := Text.valueOfDigits (digits.filter Char.isDigit)
      some (if negative then -(value : Int) else value, rest.drop digits.length)
    else none
  | [] => none

/-- The last thing seen while checking underscores. -/
inductive UnderscoreState where
  | start
  | digit
  | underscore
  | other
deriving DecidableEq

/-- Whether every underscore stands between digits. -/
def underscoresBetweenDigits (hexadecimal : Bool) : UnderscoreState → List Char → Bool
  | last, [] => last != .underscore
  | last, c :: rest =>
    if c = '_' then last == .digit && underscoresBetweenDigits hexadecimal .underscore rest
    else if (literalDigit hexadecimal c).isSome then
      underscoresBetweenDigits hexadecimal .digit rest
    else last != .underscore && underscoresBetweenDigits hexadecimal .other rest

/-- Whether the underscores of a whole literal are well placed.  The `0x` counts as a digit. -/
def underscoresAllowed (text : List Char) : Bool :=
  match (takeSign text).2 with
  | '0' :: x :: rest =>
    if x.toLower = 'x' then underscoresBetweenDigits true .digit rest
    else underscoresBetweenDigits false .start ('0' :: x :: rest)
  | rest => underscoresBetweenDigits false .start rest

/-- Split off the `0x` of a hexadecimal literal, which something has to follow. -/
def takeRadix : List Char → Bool × List Char
  | '0' :: x :: next :: rest =>
    if x.toLower = 'x' then (true, next :: rest) else (false, '0' :: x :: next :: rest)
  | text => (false, text)

/-- Read a literal made of digits. -/
def scanLiteral (text : List Char) : Option Literal :=
  let (negative, unsigned) := takeSign text
  let (hexadecimal, body) := takeRadix unsigned
  let (scan, rest) := scanMantissa hexadecimal {} body
  let accept (exponent : Int) : Option Literal :=
    if text.contains '_' && !underscoresAllowed text then none
    else some ⟨negative, hexadecimal, scan.value, scan.fraction, exponent⟩
  if scan.digits = 0 then none
  else match rest with
    | [] => if hexadecimal then none else accept 0
    | mark :: after =>
      if mark.toLower = (if hexadecimal then 'p' else 'e') then
        match scanExponent after with
        | some (exponent, []) => accept exponent
        | _ => none
      else none

/-- The double nearest to `± mantissa · 2 ^ exponent`.  Exponents far outside the range of doubles
are settled without forming the power of two. -/
def ofBinaryScale (negative : Bool) (mantissa : Nat) (exponent : Int) : Binary64 :=
  if mantissa = 0 then zero negative
  else
    let top : Int := (Nat.log2 mantissa : Int) + exponent
    if 1100 < top then .infinite negative
    else if top < -1200 then zero negative
    else nearestScaled negative mantissa exponent

/-- The double nearest to the value of a literal. -/
def Literal.value (literal : Literal) : Binary64 :=
  if literal.hexadecimal then
    ofBinaryScale literal.negative literal.mantissa (literal.exponent - 4 * literal.fraction)
  else ofDecimal literal.negative literal.mantissa (literal.exponent - literal.fraction)

/-- The words for an infinity and for not-a-number. -/
def readWord (text : List Char) : Option Binary64 :=
  let (negative, rest) := takeSign text
  let word := String.ofList (rest.map Char.toLower)
  if word = "inf" ∨ word = "infinity" then some (.infinite negative)
  else if String.ofList (text.map Char.toLower) = "nan" then some .nan
  else none

/-- Read a double. -/
def read (text : List Char) : Except LiteralFault Binary64 :=
  match readWord text with
  | some word => .ok word
  | none =>
    match scanLiteral text with
    | none => .error .syntaxFault
    | some literal =>
      match literal.value with
      | .infinite _ => .error .outOfRange
      | value => .ok value

end Reckoner.Binary64

import Reckoner.Binary64.Literal
import Reckoner.Number.Basic
import Reckoner.Text.Quoted

/-!
# Reading numbers of a given kind
-/

namespace Reckoner

/-- Why a text is no number of the kind it was read as. -/
inductive NumberTextFault where
  | integer (text : String)
  | float (text : String) (fault : Binary64.LiteralFault)
  | decimal (fault : Decimal.ReadFault)
deriving DecidableEq, Repr

/-- The wording of a fault. -/
def NumberTextFault.message : NumberTextFault → String
  | .integer text => "invalid bigint " ++ Text.quoted text
  | .float text .syntaxFault =>
    "strconv.ParseFloat: parsing " ++ Text.quoted text ++ ": invalid syntax"
  | .float text .outOfRange =>
    "strconv.ParseFloat: parsing " ++ Text.quoted text ++ ": value out of range"
  | .decimal fault => fault.message

namespace Number

/-- Read an integer of any size. -/
def readBigint (text : String) : Except NumberTextFault Number :=
  match Text.readInteger text.toList with
  | some n => .ok (.bigint n)
  | none => .error (.integer text)

/-- Read a double. -/
def readFloat (text : String) : Except NumberTextFault Number :=
  match Binary64.read text.toList with
  | .ok x => .ok (.float64 x)
  | .error fault => .error (.float text fault)

/-- Read a decimal, keeping its scale. -/
def readDecimal (text : String) : Except NumberTextFault Number :=
  match Decimal.read text with
  | .ok d => .ok (.decimal d)
  | .error fault => .error (.decimal fault)

end Number

end Reckoner

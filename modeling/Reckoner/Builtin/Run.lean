import Reckoner.Builtin.Arithmetic
import Reckoner.Builtin.Help
import Reckoner.Builtin.Settings

/-!
# Running a builtin
-/

namespace Reckoner.Builtin

/-- Print the texts of values on one line. -/
def printValues (values : List Datum) : Action Datum := do
  for value in values do
    Action.print (← Action.display value)
  Action.printLine ""
  return .bool true

/-- The value of an environment variable, or the second argument when there is none. -/
def environmentVariable : List Datum → Action Datum
  | [] => Action.fail (.missing 0 0)
  | [name] => do
    let name ← Action.display name
    return .text (((← get).environmentValue? name).getD "")
  | name :: fallback :: _ => do
    let name ← Action.display name
    return match (← get).environmentValue? name with
      | some value => .text value
      | none => fallback

/-- The builtins that need no state.  The others give `none`. -/
def compute? (b : Builtin) (arguments : List Datum) : Option (Except Fault Datum) :=
  match b with
  | .isNumber => some do return .bool (isNumeric (← first arguments))
  | .numericKind => some do kindName (← first arguments)
  | .add => some (combine Operand.add arguments)
  | .subtract => some <|
    match arguments with
    | [single] => ofNumber (Operand.neg single.operand)
    | _ => combine Operand.sub arguments
  | .multiply => some (combine Operand.mul arguments)
  | .divide => some (combine Operand.div arguments)
  | .equal => some (ofBool (related Operand.equal arguments))
  | .less => some (ofBool (related Operand.less arguments))
  | .greater => some (ofBool (related (flipped Operand.less) arguments))
  | .lessEqual => some (ofBool (related Operand.lessEqual arguments))
  | .greaterEqual => some (ofBool (related (flipped Operand.lessEqual) arguments))
  | .negate => some (onFirst Operand.neg arguments)
  | .square => some (onFirst Operand.square arguments)
  | .squareRoot => some (onFirst Operand.sqrt arguments)
  | .toInt32 => some (construct .int32 Number.readBigint arguments)
  | .toInt64 => some (construct .int64 Number.readBigint arguments)
  | .toBigint => some (construct .bigint Number.readBigint arguments)
  | .toFloat => some (construct .float64 Number.readFloat arguments)
  | .toDecimal => some (construct .decimal Number.readDecimal arguments)
  | .list => some (.ok (.ofList arguments))
  | .not => some do return .bool (!(← first arguments).truthy)
  | .help => none
  | .error => none
  | .settings => none
  | .print => none
  | .environment => none

/-- Run a builtin. -/
def run (b : Builtin) (arguments : List Datum) : Action Datum :=
  match compute? b arguments with
  | some result => Action.ofExcept id result
  | none =>
    match b with
    | .help => do
      explain (arguments.head?.getD .nil)
      return .nil
    | .error => do
      let value ← Action.ofExcept id (first arguments)
      Action.fail (.raised (← Action.display value))
    | .settings => changeSettings arguments
    | .print => printValues arguments
    | _ => environmentVariable arguments

end Reckoner.Builtin

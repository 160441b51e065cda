import Reckoner.Catalogue.Basic
import Reckoner.Datum.Basic

/-!
# Checking calls before they run

`infer` gives the type of an expression as far as the catalogue tells, and rejects calls of
declared functions with too few or too many arguments or with arguments of a type that does not
fit.  Only heads that are written as a name are looked up; a head is not checked itself.  Quoted
data is not checked at all, and of a function only the body.
-/

namespace Reckoner

/-- Why a call is rejected. -/
inductive Rejection where
  | tooFew (position : Position) (name : String) (least : Int)
  | tooMany (position : Position) (name : String) (most : Int)
  | wrongType (position : Position) (name : String) (index : Nat) (required found : TypeExpr)
deriving DecidableEq, Repr

/-- The wording of a rejection. -/
def Rejection.message : Rejection → String
  | .tooFew position name least =>
    position.text ++ ": function " ++ name ++ " expects at least " ++ Text.ofInteger least ++
      " parameters"
  | .tooMany position name most =>
    position.text ++ ": function " ++ name ++ " expects at most " ++ Text.ofInteger most ++
      " parameters"
  | .wrongType position name index required found =>
    position.text ++ ": function " ++ name ++ " expects parameter " ++ Nat.repr index ++
      " to be " ++ required.text ++ ", but found value of type " ++ found.text

namespace Datum

/-- The type of a number, which may be an integer. -/
def numberType : Number → TypeExpr
  | .int32 _ => .int
  | .int64 _ => .int
  | .bigint _ => .int
  | _ => .number

/-- The declaration of a head that is written as a name. -/
def headDeclaration? (catalogue : Catalogue) : Datum → Option Declaration
  | .symbol name => catalogue.find? name
  | _ => none

/-- Check the number of arguments against a declaration. -/
def checkCount (position : Position) (d : Option Declaration) (count : Nat) :
    Except Rejection Unit :=
  match d with
  | none => .ok ()
  | some d =>
    if (count : Int) < d.least then .error (.tooFew position d.name d.least)
    else if d.most < (count : Int) then .error (.tooMany position d.name d.most)
    else .ok ()

mutual

/-- The type of an expression, if every call in it is in order. -/
def infer (catalogue : Catalogue) : Datum → Except Rejection TypeExpr
  | .nil => .ok .nil
  | .text _ => .ok .string
  | .number n => .ok (numberType n)
  | .reference _ => .ok .number
  | .bool _ => .ok .bool
  | .closure .. => .ok .func
  | .native _ => .ok .func
  | .symbol _ => .ok .any
  | .host _ => .ok .any
  | .list position items =>
    match items with
    | [] => .ok .list
    | .symbol "quote" :: _ => .ok .any
    | [.symbol "lambda", _, body] => do
      let _ ← infer catalogue body
      .ok .func
    | .symbol "lambda" :: _ => .ok .func
    | head :: arguments => do
      let declaration := headDeclaration? catalogue head
      let place := position.getD .unknown
      checkCount place declaration arguments.length
      checkArguments catalogue place declaration 0 arguments
      .ok (match declaration with
        | some d => d.returns
        | none => .any)

/-- Check arguments from an index on against the parameters of a declaration. -/
def checkArguments (catalogue : Catalogue) (position : Position)
    (declaration : Option Declaration) : Nat → List Datum → Except Rejection Unit
  | _, [] => .ok ()
  | index, argument :: rest => do
    let found ← infer catalogue argument
    match declaration with
    | none => checkArguments catalogue position declaration (index + 1) rest
    | some d =>
      let required := d.argumentType index
      if found.fits required then
        checkArguments catalogue position declaration (index + 1) rest
      else .error (.wrongType position d.name (index + 1) required found)

end

end Datum

end Reckoner

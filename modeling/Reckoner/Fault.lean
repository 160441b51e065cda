import Reckoner.Datum.Printer
import Reckoner.FileTree
import Reckoner.Number.Text
import Reckoner.Token
import Reckoner.Validation

/-!
# Faults

Everything that can go wrong, by its cause.  `Fault.message` has all wordings.  `Fault.category`
groups the causes by how they are reported: most are just a text, faults of numbers carry their
parts, an index fault is an argument that is not there, and system faults come from files, from
number texts and from the command line.

A `Failure` is a fault with the position of the innermost list that was being evaluated, if there
was one.
-/

namespace Reckoner

/-- What is wrong with a command line. -/
inductive OptionFault where
  | malformed (argument : String)
  | unknown (name : String)
  | missingValue (name : String)
  | badFlag (name value : String)
  | helpRequested
deriving DecidableEq, Repr

/-- The wording of a fault. -/
def OptionFault.message : OptionFault → String
  | .malformed argument => "bad flag syntax: " ++ argument
  | .unknown name => "flag provided but not defined: -" ++ name
  | .missingValue name => "flag needs an argument: -" ++ name
  | .badFlag name value =>
    "invalid boolean value " ++ Text.quoted value ++ " for -" ++ name ++ ": parse error"
  | .helpRequested => "flag: help requested"

/-- The cause of a failure. -/
inductive Fault where
  | number (e : NumberError)
  /-- An argument, or an item of a form, that is not there. -/
  | missing (index length : Nat)
  | numberText (f : NumberTextFault)
  /-- A text that a constructor of numbers cannot read. -/
  | unreadable (kind : Kind) (f : NumberTextFault)
  | read (e : ReadError)
  | rejected (r : Rejection)
  | undefinedSymbol (name : String)
  | notExpression (text : String)
  | unknownFunction (text : String)
  | tooManyArguments (parameters arguments : Nat)
  | parameterNotSymbol
  | malformedParameters
  | malformedDefinition (keyword : String)
  | definitionOf (keyword text : String)
  | malformedLambda
  /-- An error that the program raised itself. -/
  | raised (message : String)
  | unknownSetting (name : String)
  | fixedSetting
  /-- A value that help knows nothing about. -/
  | unknownTopic (value : Datum)
  | file (e : FileError)
  | script (name : String) (e : FileError)
  | documentFolder (folder : String) (e : FileError)
  | documentFile (name : String) (e : FileError)
  | option (o : OptionFault)

namespace Fault

/-- How a fault is reported. -/
inductive Category where
  | text
  | operand (operator : String) (position : Int) (actual : String)
  | arithmetic (operator : String) (cause : ArithmeticCause)
  | index
  | system
deriving DecidableEq, Repr

/-- How a fault is reported. -/
def category : Fault → Category
  | .number (.operand operator position actual) => .operand operator position actual
  | .number (.arithmetic operator cause) => .arithmetic operator cause
  | .missing .. => .index
  | .numberText _ => .system
  | .file _ => .system
  | .script .. => .system
  | .documentFolder .. => .system
  | .documentFile .. => .system
  | .option _ => .system
  | _ => .text

/-- The wording of a fault. -/
def message : Fault → String
  | .number e => e.message
  | .missing index length =>
    "runtime error: index out of range [" ++ Nat.repr index ++ "] with length " ++ Nat.repr length
  | .numberText f => f.message
  | .unreadable kind f => kind.name ++ ": " ++ f.message
  | .read e => e.message
  | .rejected r => r.message
  | .undefinedSymbol name => "undefined symbol: " ++ name
  | .notExpression text => "Unknown expression type - EVAL " ++ text
  | .unknownFunction text => "Unknown function: " ++ text
  | .tooManyArguments parameters arguments =>
    "Apply: function with " ++ Nat.repr parameters ++ " parameters is supplied with " ++
      Nat.repr arguments ++ " arguments"
  | .parameterNotSymbol => "lambda parameters must be symbols"
  | .malformedParameters => "proc parameters must be list, symbol, or nil"
  | .malformedDefinition keyword => keyword ++ " expects a symbol and a value"
  | .definitionOf keyword text => keyword ++ " expects a symbol, got " ++ text
  | .malformedLambda => "lambda expects parameters and a body"
  | .raised message => message
  | .unknownSetting name => "unknown setting: " ++ name
  | .fixedSetting => "DivisionScale is fixed at 16"
  | .unknownTopic value => "function not found: " ++ value.plain
  | .file e => e.message
  | .script name e => "cannot load script " ++ name ++ ": " ++ e.message
  | .documentFolder folder e =>
    "failed to create folder " ++ Text.quoted folder ++ ": " ++ e.message
  | .documentFile name e => "failed to create " ++ name ++ ": " ++ e.message
  | .option o => o.message

end Fault

/-- The outcome of an evaluation that does not give a value. -/
inductive Failure where
  /-- A fault, with the innermost list that was being evaluated. -/
  | raised (fault : Fault) (position : Option Position)
  /-- The evaluation was cut off because it is nested too deeply. -/
  | exhausted

namespace Failure

/-- The wording of a failure. -/
def message : Failure → String
  | .raised fault none => fault.message
  | .raised fault (some position) => position.text ++ ": " ++ fault.message
  | .exhausted => "evaluation is nested too deeply"

/-- The failure as seen by a list that is being evaluated: the position of an inner list stays. -/
def locate (position : Position) : Failure → Failure
  | .raised fault none => .raised fault (some position)
  | failure => failure

/-- Whether more text could complete the input: a plain message that ends in the demand for a
closing parenthesis. -/
def isIncomplete : Failure → Bool
  | .raised fault none =>
    fault.category == .text && fault.message.endsWith "expecting matching )"
  | _ => false

end Failure

end Reckoner

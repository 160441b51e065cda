import Reckoner.Text.Blank
import Reckoner.Text.Integer
import Reckoner.Text.Quoted
import Reckoner.Binary64.Arithmetic
import Reckoner.Binary64.Shortest
import Reckoner.Binary64.Text
import Reckoner.Binary64.Literal
import Reckoner.Decimal.Text
import Reckoner.Number.Operand
import Reckoner.Number.Text
import Reckoner.Datum.Printer
import Reckoner.Reader
import Reckoner.Catalogue.Document
import Reckoner.Catalogue.Standard
import Reckoner.Validation
import Reckoner.FileTree
import Reckoner.Scope
import Reckoner.Trace
import Reckoner.Interpreter
import Reckoner.Evaluation
import Reckoner.CommandLine
import Reckoner.Main
import Reckoner.Proofs.Number.Division
import Reckoner.Proofs.Builtin.Comparison
import Reckoner.Proofs.Evaluation.Frame
import Reckoner.Proofs.Evaluation.ReadBack
import Reckoner.Proofs.Prompt
import Reckoner.Proofs.Evaluation.Definition
import Reckoner.Proofs.Evaluation.Activity
import Reckoner.Proofs.Evaluation.Location
import Reckoner.Proofs.Validation
import Reckoner.Proofs.Datum.Blur
import Reckoner.Proofs.Evaluation.Alike
import Reckoner.Proofs.Evaluation.Erasure
import Reckoner.Proofs.Evaluation.Discipline
import Reckoner.Proofs.Evaluation.Depth
import Reckoner.Proofs.Evaluation.Application
import Reckoner.Proofs.Evaluation.Quotation
import Reckoner.Proofs.Trace
import Reckoner.Proofs.Evaluation.Tracing
import Reckoner.Proofs.Evaluation.Typing
import Reckoner.Proofs.Program
import Reckoner.Proofs.Number.Conversion
import Reckoner.Proofs.Decimal.Expansion
import Reckoner.Proofs.Number.Failure
import Reckoner.Proofs.Builtin.Run
import Reckoner.Proofs.Evaluation.Regime
import Reckoner.Proofs.Evaluation.History
import Reckoner.Proofs.Evaluation.Provenance
import Reckoner.Proofs.Evaluation.Unplaced
import Reckoner.Proofs.Evaluation.Import
import Reckoner.Proofs.Reader.Verdict
import Reckoner.Proofs.Token.Comment
import Reckoner.Proofs.Token.Literal
import Reckoner.Proofs.Token.Placement
import Reckoner.Proofs.Builtin.Operands
import Reckoner.Proofs.Number.Folding
import Reckoner.Proofs.Builtin.Arithmetic
import Reckoner.Proofs.Builtin.Order
import Reckoner.Proofs.Binary64.Range
import Reckoner.Proofs.Number.Root
import Reckoner.Proofs.Builtin.Settings
import Reckoner.Proofs.Text.Path
import Reckoner.Proofs.FileTree
import Reckoner.Proofs.Catalogue.Document

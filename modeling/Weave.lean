import Weave.Proofs.Core.Objects
import Weave.Proofs.Core.Sequences
import Weave.Proofs.Core.Sorting
import Weave.Proofs.DataType.Literals
import Weave.Proofs.DataType.Models
import Weave.Proofs.DataType.Sums
import Weave.Proofs.Eval.Overloads
import Weave.Proofs.Eval.Placeholders
import Weave.Proofs.Eval.Scope
import Weave.Proofs.Expr.Embedding
import Weave.Proofs.Expr.Parentheses
import Weave.Proofs.Expr.Quotation
import Weave.Proofs.Grammar.LogicalWords
import Weave.Proofs.Json.MissingKeys
import Weave.Proofs.Json.Nesting
import Weave.Proofs.Module.Bodies
import Weave.Proofs.Module.Exports
import Weave.Proofs.Phrase.Precedence
import Weave.Proofs.Script.Parameters
import Weave.Proofs.Session.Places
import Weave.Proofs.Session.Reading
import Weave.Proofs.Session.Refusals
import Weave.Proofs.Text.TopLevel
import Weave.Proofs.TypeSpec.Agreement
import Weave.Proofs.Value.Idempotence
import Weave.Proofs.Value.Projection
import Weave.Proofs.Xml.Selection
import Weave.Proofs.Xml.Views
import Weave.Report

import PathQuery.Double.Bits
import PathQuery.Proofs.Access.Dotted
import PathQuery.Proofs.Access.Index
import PathQuery.Proofs.Access.Reference
import PathQuery.Proofs.Execution.Computed
import PathQuery.Proofs.Execution.Constant
import PathQuery.Proofs.Execution.Construction
import PathQuery.Proofs.Execution.Conversion
import PathQuery.Proofs.Execution.Distribution
import PathQuery.Proofs.Execution.Filtering
import PathQuery.Proofs.Execution.Locality
import PathQuery.Proofs.Execution.Provenance
import PathQuery.Proofs.Execution.Recursion
import PathQuery.Proofs.Execution.Shape
import PathQuery.Proofs.Execution.Slicing
import PathQuery.Proofs.Execution.Substitution
import PathQuery.Proofs.Expr.Absence
import PathQuery.Proofs.Expr.Integers
import PathQuery.Proofs.Expr.Order
import PathQuery.Proofs.Expr.Search
import PathQuery.Proofs.Expr.Storage
import PathQuery.Proofs.Grammar.Acceptance
import PathQuery.Proofs.Grammar.Rejection
import PathQuery.Proofs.Grammar.Signs
import PathQuery.Proofs.Json.Comparison
import PathQuery.Proofs.Json.Leaves
import PathQuery.Proofs.Json.Visit
import PathQuery.Proofs.Lexing.Joining
import PathQuery.Proofs.Lexing.Rejection
import PathQuery.Proofs.Numeral.Integers
import PathQuery.Proofs.Printing.Image
import PathQuery.Proofs.Printing.RoundTrip
import PathQuery.Proofs.Rules.Ending
import PathQuery.Proofs.Session.History
import PathQuery.Proofs.Session.Reference
import PathQuery.Session
import PathQuery.Token.Stream

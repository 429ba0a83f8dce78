import Stepwise.Main
import Stepwise.Proofs.Bindings
import Stepwise.Proofs.Catalog
import Stepwise.Proofs.Expr.Substitution
import Stepwise.Proofs.Session.Reading
import Stepwise.Proofs.Solution.FaultFree
import Stepwise.Proofs.Solution.Replay
import Stepwise.Service.Config
import Stepwise.Service.Http
import Stepwise.Proofs.Session.RoundTrip
import Stepwise.Proofs.Session.Edit
import Stepwise.Proofs.Solution.Fixpoint
import Stepwise.Proofs.Solution.Derivable
import Stepwise.Proofs.Expr.Render
import Stepwise.Proofs.Expr.Denotation
import Stepwise.Proofs.Solution.Check
import Stepwise.Proofs.Solution.Grammar
import Stepwise.Proofs.Solution.Warnings
import Stepwise.Proofs.Solution.Advice
import Stepwise.Proofs.Solution.Remedy
import Stepwise.Proofs.Solution.Hints
import Stepwise.Proofs.Solution.Course
import Stepwise.Proofs.Expr.Divisors
import Stepwise.Proofs.Number.NonFinite
import Stepwise.Proofs.Number.Rounding
import Stepwise.Proofs.Number.Operations
import Stepwise.Proofs.Number.Floor
import Stepwise.Proofs.Solution.Rounding
import Stepwise.Proofs.Solution.Division
import Stepwise.Proofs.Catalog.Laws
import Stepwise.Proofs.Catalog.Registration
import Stepwise.Proofs.Number.Numeral
import Stepwise.Proofs.Session.Grammar
import Stepwise.Proofs.Json.Basic
import Stepwise.Proofs.Expr.Json
import Stepwise.Proofs.Session.Json
import Stepwise.Proofs.Solution.Json
import Stepwise.Proofs.Solution.Depth
import Stepwise.Proofs.Json.Quoted
import Stepwise.Proofs.Json.Numeral
import Stepwise.Proofs.Json.Text
import Stepwise.Proofs.Service.Transport
import Stepwise.Proofs.Expr.Grouping
import Stepwise.Proofs.Expr.Minus
import Stepwise.Proofs.Session.Recovery
import Stepwise.Proofs.Expr.Environment
import Stepwise.Proofs.Solution.Bound
import Stepwise.Proofs.Solution.Repeated
import Stepwise.Proofs.Solution.Vocabulary
import Stepwise.Proofs.Solution.Independent
import Stepwise.Proofs.Session.Apply
import Stepwise.Proofs.Expr.Places
import Stepwise.Proofs.Catalog.Fault
import Stepwise.Proofs.Session.Progress

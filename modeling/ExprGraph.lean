import ExprGraph.Context.Checked
import ExprGraph.Context.History
import ExprGraph.Context.Recursion
import ExprGraph.Context.Loop
import ExprGraph.Json.Reader
import ExprGraph.Main
import ExprGraph.Proofs.Arena.History
import ExprGraph.Proofs.Arena.Import
import ExprGraph.Proofs.Arena.Readers
import ExprGraph.Proofs.Graph.Below
import ExprGraph.Proofs.Graph.Order
import ExprGraph.Proofs.Graph.Uses
import ExprGraph.Proofs.Traversal.Checked
import ExprGraph.Proofs.Traversal.Progress
import ExprGraph.Proofs.Traversal.Recursion
import ExprGraph.Proofs.Traversal.Release
import ExprGraph.Proofs.Traversal.Stack
import ExprGraph.Proofs.Traversal.Sweep
import ExprGraph.Proofs.Traversal.Tables
import ExprGraph.Proofs.Traversal.Visits
import ExprGraph.Tree.Equality
import ExprGraph.Tree.Exchange
import ExprGraph.Proofs.Exchange.Embedding
import ExprGraph.Proofs.Exchange.Numbering
import ExprGraph.Proofs.Arena.Growth
import ExprGraph.Proofs.Exchange.Export
import ExprGraph.Proofs.Exchange.NormalForm
import ExprGraph.Proofs.Exchange.RoundTrip
import ExprGraph.Proofs.Decimal.Ratio
import ExprGraph.Proofs.Ieee.Rounding
import ExprGraph.Proofs.Decimal.Shortest
import ExprGraph.Proofs.Decimal.Reading
import ExprGraph.Proofs.Decimal.RoundTrip
import ExprGraph.Proofs.Number.Text
import ExprGraph.Proofs.Infix.Token
import ExprGraph.Proofs.Infix.Grammar
import ExprGraph.Proofs.Infix.Grouping
import ExprGraph.Proofs.Infix.Reading
import ExprGraph.Proofs.Prefix.Characters
import ExprGraph.Proofs.Arena.Builders
import ExprGraph.Proofs.Prefix.Faithful
import ExprGraph.Proofs.Traversal.Renumbering
import ExprGraph.Proofs.Arena.Persistence
import ExprGraph.Proofs.Construction.Agreement
import ExprGraph.Proofs.Number.Equality
import ExprGraph.Proofs.Tree.Comparison
import ExprGraph.Proofs.Arena.Validity
import ExprGraph.Proofs.Traversal.Invariant
import ExprGraph.Proofs.Evaluation.Unbound
import ExprGraph.Proofs.Ladder.Building
import ExprGraph.Proofs.Ladder.Exact
import ExprGraph.Proofs.Ladder.Sizes
import ExprGraph.Proofs.CommandLine.Report
import ExprGraph.Proofs.Decimal.Nearest
import ExprGraph.Proofs.Decimal.Grammar
import ExprGraph.Proofs.CommandLine.Binding
import ExprGraph.Proofs.Json.Literal
import ExprGraph.Proofs.Graph.Edges
import ExprGraph.Proofs.Traversal.Termination

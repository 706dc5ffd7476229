import ExprGraph.CommandLine
import ExprGraph.Proofs.Ladder.Recurrence
import ExprGraph.Proofs.Ladder.Sizes
import ExprGraph.Proofs.Number.Text

set_option autoImplicit false

namespace ExprGraph

namespace CommandLine

variable {settings : Settings}

end CommandLine

end ExprGraph

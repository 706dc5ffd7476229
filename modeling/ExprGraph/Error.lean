import ExprGraph.Kind

set_option autoImplicit false

namespace ExprGraph

inductive Error where
  | badNode
  | invalidTerminal (expected : Terminal) (found : Kind)
deriving DecidableEq, Repr

def Error.message : Error → String
  | .badNode => "node is not present in this `Context`"
  | .invalidTerminal expected found =>
    "element must be a " ++ expected.name ++ ", not " ++ found.name

class ReportsError (ε : Type) where
  report : Error → ε

instance : ReportsError Error := ⟨id⟩

end ExprGraph

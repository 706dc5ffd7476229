import ExprGraph.Context.Traversal

set_option autoImplicit false

namespace ExprGraph

structure Infix where
  text : String
  precedence : Nat

namespace Infix

-- The text as an operand. Operators of equal precedence get no parentheses on either side.
def within (operand : Infix) (outer : Nat) : String :=
  if operand.precedence < outer then "(" ++ operand.text ++ ")" else operand.text

def layerText : Op Infix → String
  | .number v => v.render
  | .symbol s => s
  | .binary code lhs rhs =>
    lhs.within code.precedence ++ " " ++ code.token ++ " " ++ rhs.within code.precedence

def layer (op : Op Infix) : Infix := ⟨layerText op, op.precedence⟩

end Infix

namespace Context

def render (context : Context) (root : Node) : Except Error String :=
  Infix.text <$> context.fold root Infix.layer

def reprLayer : Op String → String
  | .number v => v.render
  | .symbol s => Text.quote s
  | .binary code lhs rhs => code.name ++ "(" ++ lhs ++ ", " ++ rhs ++ ")"

def repr (context : Context) (root : Node) : Except Error String :=
  context.fold root reprLayer

end Context

end ExprGraph

import ExprGraph.Op

set_option autoImplicit false

namespace ExprGraph

-- Equality tells the signs of zero apart; `==` compares numbers as they compare elsewhere.
inductive Expr where
  | number (value : Number)
  | symbol (name : String)
  | binary (code : Opcode) (lhs rhs : Expr)
deriving DecidableEq, BEq, Inhabited

namespace Expr

variable {R : Type}

def fold (layer : Op R → R) : Expr → R
  | .number v => layer (.number v)
  | .symbol s => layer (.symbol s)
  | .binary code lhs rhs => layer (.binary code (lhs.fold layer) (rhs.fold layer))

def size : Expr → Nat
  | .number _ => 1
  | .symbol _ => 1
  | .binary _ lhs rhs => lhs.size + rhs.size + 1

def symbols : Expr → List String
  | .number _ => []
  | .symbol s => [s]
  | .binary _ lhs rhs => lhs.symbols ++ rhs.symbols

end Expr

end ExprGraph

set_option autoImplicit false

namespace ExprGraph

inductive Kind where
  | bool
  | int
  | float
  | text
deriving DecidableEq, Repr

def Kind.name : Kind → String
  | .bool => "bool"
  | .int => "int"
  | .float => "float"
  | .text => "str"

inductive Terminal where
  | number
  | symbol
deriving DecidableEq, Repr

def Terminal.name : Terminal → String
  | .number => "number"
  | .symbol => "symbol"

end ExprGraph

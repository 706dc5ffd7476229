set_option autoImplicit false

namespace ExprGraph

inductive Opcode where
  | add
  | sub
  | mul
  | div
  | pow
deriving DecidableEq, Ord, Hashable, Repr, Inhabited

namespace Opcode

def all : List Opcode := [.add, .sub, .mul, .div, .pow]

theorem mem_all (code : Opcode) : code ∈ all := by
  cases code <;> decide

def token : Opcode → String
  | .add => "+"
  | .sub => "-"
  | .mul => "*"
  | .div => "/"
  | .pow => "^"

def precedence : Opcode → Nat
  | .add | .sub => 1
  | .mul | .div => 2
  | .pow => 3

def name : Opcode → String
  | .add => "Add"
  | .sub => "Sub"
  | .mul => "Mul"
  | .div => "Div"
  | .pow => "Pow"

def ofName? (text : String) : Option Opcode :=
  all.find? fun code => code.name.toList.map Char.toLower = text.toList.map Char.toLower

end Opcode

def terminalPrecedence : Nat := 5

end ExprGraph

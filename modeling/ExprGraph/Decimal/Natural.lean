set_option autoImplicit false

namespace ExprGraph.Decimal

inductive NaturalFault where
  | empty
  | invalidDigit
  | tooLarge
deriving DecidableEq, Repr

def NaturalFault.message : NaturalFault → String
  | .empty => "cannot parse integer from empty string"
  | .invalidDigit => "invalid digit found in string"
  | .tooLarge => "number too large to fit in target type"

def extendNatural (limit value : Nat) (c : Char) : Except NaturalFault Nat :=
  if !c.isDigit then .error .invalidDigit
  else
    let next := 10 * value + (c.toNat - '0'.toNat)
    if limit < next then .error .tooLarge else .ok next

def readNatural (limit : Nat) (text : String) : Except NaturalFault Nat :=
  match text.toList with
  | [] => .error .empty
  | ['+'] => .error .invalidDigit
  | '+' :: digits => digits.foldlM (extendNatural limit) 0
  | digits => digits.foldlM (extendNatural limit) 0

end ExprGraph.Decimal

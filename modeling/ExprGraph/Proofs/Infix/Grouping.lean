import ExprGraph.Expr

set_option autoImplicit false

namespace ExprGraph.Expr

variable {e f : Expr}

def precedence : Expr → Nat
  | .number _ => terminalPrecedence
  | .symbol _ => terminalPrecedence
  | .binary code _ _ => code.precedence

-- Puts an operand and an operator before a chain that is grouped to the left.
def graft (code : Opcode) (lhs : Expr) : Expr → Expr
  | .binary next a b =>
    if next.precedence = code.precedence then .binary next (graft code lhs a) b
    else .binary code lhs (.binary next a b)
  | rhs => .binary code lhs rhs

def leftGrouped : Expr → Expr
  | .binary code lhs rhs => graft code lhs.leftGrouped rhs.leftGrouped
  | terminal => terminal

theorem graft_of_precedence_ne {code : Opcode} {lhs rhs : Expr}
    (other : rhs.precedence ≠ code.precedence) : graft code lhs rhs = .binary code lhs rhs := by
  cases rhs with
  | number v | symbol s => rfl
  | binary next a b => exact if_neg other

theorem graft_of_precedence_eq {code next : Opcode} (same : next.precedence = code.precedence)
    (lhs a b : Expr) : graft code lhs (.binary next a b) = .binary next (graft code lhs a) b :=
  if_pos same

@[simp] theorem precedence_graft (code : Opcode) (lhs rhs : Expr) :
    (graft code lhs rhs).precedence = code.precedence := by
  induction rhs with
  | number | symbol => rfl
  | binary next a b _ _ =>
    by_cases same : (binary next a b).precedence = code.precedence
    · rw [graft_of_precedence_eq same]
      exact same
    · rw [graft_of_precedence_ne same]
      rfl

@[simp] theorem precedence_leftGrouped (e : Expr) : e.leftGrouped.precedence = e.precedence := by
  cases e with
  | number | symbol => rfl
  | binary code lhs rhs => exact precedence_graft ..

end ExprGraph.Expr

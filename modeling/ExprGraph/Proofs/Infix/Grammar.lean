import ExprGraph.Expr
import ExprGraph.Proofs.Infix.Token

set_option autoImplicit false

namespace ExprGraph

inductive Reads : Nat → List Token → Expr → Prop
  | number (level : Nat) (v : Number) : Reads level [.word v.render] (.number v)
  | symbol (level : Nat) {name : String} (noNumber : ∀ v : Number, v.render ≠ name)
      (noOperator : ∀ code : Opcode, code.token ≠ name) : Reads level [.word name] (.symbol name)
  | parentheses (level : Nat) {tokens : List Token} {e : Expr} (inner : Reads 0 tokens e) :
      Reads level (.opening :: (tokens ++ [.closing])) e
  | operator {level : Nat} {code : Opcode} {left right : List Token} {lhs rhs : Expr}
      (binds : level ≤ code.precedence) (first : Reads code.precedence left lhs)
      (second : Reads (code.precedence + 1) right rhs) :
      Reads level (left ++ .space :: .word code.token :: .space :: right) (.binary code lhs rhs)

namespace Reads

variable {level lower : Nat} {tokens : List Token} {e : Expr}

theorem mono (reads : Reads level tokens e) (weaker : lower ≤ level) : Reads lower tokens e := by
  cases reads with
  | number _ v => exact .number lower v
  | symbol _ noNumber noOperator => exact .symbol lower noNumber noOperator
  | parentheses _ inner => exact .parentheses lower inner
  | operator binds first second => exact .operator (weaker.trans binds) first second

end Reads

end ExprGraph

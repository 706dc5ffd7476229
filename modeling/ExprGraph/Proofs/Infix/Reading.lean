import ExprGraph.Proofs.Exchange.NormalForm
import ExprGraph.Proofs.Infix.Grouping
import ExprGraph.Proofs.Infix.Reader

set_option autoImplicit false

namespace ExprGraph

namespace Token

def enclose (inner outer : Nat) (tokens : List Token) : List Token :=
  if inner < outer then .opening :: (tokens ++ [.closing]) else tokens

end Token

theorem Reads.enclose {inner : Nat} {tokens : List Token} {e : Expr} (reads : Reads inner tokens e)
    (outer : Nat) : Reads outer (Token.enclose inner outer tokens) e := by
  unfold Token.enclose
  split
  next => exact .parentheses outer (reads.mono (Nat.zero_le _))
  next binds => exact reads.mono (not_lt.mp binds)

namespace Expr

variable {e f : Expr}

def rendered (e : Expr) : Infix := e.fold Infix.layer

def text (e : Expr) : String := e.rendered.text

def spelled : Expr → List Token
  | .number v => [.word v.render]
  | .symbol name => [.word name]
  | .binary code lhs rhs =>
    Token.enclose lhs.precedence code.precedence lhs.spelled ++
      .space :: .word code.token :: .space ::
        Token.enclose rhs.precedence code.precedence rhs.spelled

structure IsName (name : String) : Prop where
  word : Token.IsWord name
  noNumber : ∀ v : Number, v.render ≠ name
  noOperator : ∀ code : Opcode, code.token ≠ name

instance (name : String) : Decidable (IsName name) :=
  decidable_of_iff
    (Token.IsWord name ∧ Number.ofText? name = none ∧ ∀ code ∈ Opcode.all, code.token ≠ name)
    ⟨fun ⟨word, noNumber, noOperator⟩ =>
      ⟨word, Number.ofText?_eq_none_iff.mp noNumber, fun code => noOperator code code.mem_all⟩,
    fun known => ⟨known.word, Number.ofText?_eq_none_iff.mpr known.noNumber,
      fun code _ => known.noOperator code⟩⟩

def Legible (e : Expr) : Prop := ∀ name ∈ e.symbols, IsName name

instance (e : Expr) : Decidable e.Legible :=
  inferInstanceAs (Decidable (∀ name ∈ e.symbols, IsName name))

theorem Legible.lhs {code : Opcode} {lhs rhs : Expr} (legible : (binary code lhs rhs).Legible) :
    lhs.Legible :=
  fun name member => legible name (List.mem_append_left _ member)

theorem Legible.rhs {code : Opcode} {lhs rhs : Expr} (legible : (binary code lhs rhs).Legible) :
    rhs.Legible :=
  fun name member => legible name (List.mem_append_right _ member)

end Expr

namespace Tree

variable {t : Tree}

end Tree

end ExprGraph

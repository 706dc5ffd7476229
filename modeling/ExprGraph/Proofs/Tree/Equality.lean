import ExprGraph.Proofs.Exchange.Nodes
import ExprGraph.Tree.Equality

set_option autoImplicit false

namespace ExprGraph

@[simp] theorem Number.beq_self (v : Number) : (v == v) = true := decide_eq_true rfl

namespace Expr

@[simp] theorem beq_number (v w : Number) : (number v == number w) = (v == w) := rfl

@[simp] theorem beq_symbol (s r : String) : (symbol s == symbol r) = (s == r) := rfl

@[simp] theorem beq_binary (code code' : Opcode) (lhs rhs lhs' rhs' : Expr) :
    (binary code lhs rhs == binary code' lhs' rhs') =
      (code == code' && (lhs == lhs' && rhs == rhs')) := rfl

@[simp] theorem beq_self (e : Expr) : (e == e) = true := by
  induction e with
  | number v => simp
  | symbol s => simp
  | binary code lhs rhs left right => simp [left, right]

end Expr

namespace Tree

def CoherentWith (t u : Tree) : Prop :=
  ∀ a ∈ t.subtrees, ∀ b ∈ u.subtrees, a.identity = b.identity → a = b

theorem CoherentWith.operands {t u a b : Tree} (coherent : t.CoherentWith u)
    (left : a ∈ t.operands) (right : b ∈ u.operands) : a.CoherentWith b :=
  fun v first w second => coherent v (mem_subtrees_trans (operand_mem_subtrees left) first)
    w (mem_subtrees_trans (operand_mem_subtrees right) second)

theorem equalPairs_of_expr_eq (pairs : List (Tree × Tree))
    (same : ∀ pair ∈ pairs, pair.1.expr = pair.2.expr) : equalPairs pairs = true := by
  fun_induction equalPairs pairs with
  | case1 => rfl
  | case2 _ _ _ _ ih => exact ih fun pair member => same pair (List.mem_cons_of_mem _ member)
  | case3 rest _ v _ w _ ih | case4 rest _ v _ w _ ih =>
    obtain ⟨first, later⟩ := List.forall_mem_cons.mp same
    obtain rfl : v = w := by simpa [expr] using first
    simpa using ih later
  | case5 rest _ code lhs rhs _ code' lhs' rhs' _ ih =>
    obtain ⟨first, later⟩ := List.forall_mem_cons.mp same
    obtain ⟨rfl, left, right⟩ : code = code' ∧ lhs.expr = lhs'.expr ∧ rhs.expr = rhs'.expr := by
      simpa [expr] using first
    have := ih (by simpa [left, right] using later)
    simpa using this
  | case6 t rest u _ notNumbers notSymbols notBinary =>
    have first := same (t, u) List.mem_cons_self
    cases t with
    | number => cases u with
      | number => exact (notNumbers _ _ _ _ rfl rfl).elim
      | symbol | binary => simp [expr] at first
    | symbol => cases u with
      | symbol => exact (notSymbols _ _ _ _ rfl rfl).elim
      | number | binary => simp [expr] at first
    | binary => cases u with
      | binary => exact (notBinary _ _ _ _ _ _ _ _ rfl rfl).elim
      | number | symbol => simp [expr] at first

theorem beq_of_expr_eq {t u : Tree} (same : t.expr = u.expr) : (t == u) = true :=
  equalPairs_of_expr_eq [(t, u)] (by simpa using same)

theorem equalPairs_iff (pairs : List (Tree × Tree))
    (coherent : ∀ pair ∈ pairs, pair.1.CoherentWith pair.2) :
    equalPairs pairs = true ↔ ∀ pair ∈ pairs, (pair.1.expr == pair.2.expr) = true := by
  fun_induction equalPairs pairs with
  | case1 => simp
  | case2 t u rest same ih =>
    obtain ⟨first, later⟩ := List.forall_mem_cons.mp coherent
    obtain rfl : t = u :=
      first t t.self_mem_subtrees u u.self_mem_subtrees (by simpa [Tree.same] using same)
    rw [ih later, List.forall_mem_cons]
    simp
  | case3 rest _ v _ w _ ih =>
    rw [Bool.and_eq_true, ih (List.forall_mem_cons.mp coherent).2, List.forall_mem_cons]
    simp [expr]
  | case4 rest _ s _ r _ ih =>
    rw [Bool.and_eq_true, ih (List.forall_mem_cons.mp coherent).2, List.forall_mem_cons]
    simp [expr]
  | case5 rest _ code lhs rhs _ code' lhs' rhs' _ ih =>
    obtain ⟨first, later⟩ := List.forall_mem_cons.mp coherent
    have left : lhs.CoherentWith lhs' := first.operands (by simp) (by simp)
    have right : rhs.CoherentWith rhs' := first.operands (by simp) (by simp)
    have below := ih (List.forall_mem_cons.mpr ⟨right, List.forall_mem_cons.mpr ⟨left, later⟩⟩)
    rw [Bool.and_eq_true, below, List.forall_mem_cons, List.forall_mem_cons, List.forall_mem_cons]
    simp only [expr, Expr.beq_binary, Bool.and_eq_true]
    -- The pending pair of the right operands is looked at first.
    constructor
    · rintro ⟨code, rhs, lhs, rest⟩
      exact ⟨⟨code, lhs, rhs⟩, rest⟩
    · rintro ⟨⟨code, lhs, rhs⟩, rest⟩
      exact ⟨code, rhs, lhs, rest⟩
  | case6 t rest u _ notNumbers notSymbols notBinary =>
    refine iff_of_false Bool.false_ne_true fun all => ?_
    have first := all (t, u) List.mem_cons_self
    cases t with
    | number => cases u with
      | number => exact notNumbers _ _ _ _ rfl rfl
      | symbol | binary => exact Bool.false_ne_true first
    | symbol => cases u with
      | symbol => exact notSymbols _ _ _ _ rfl rfl
      | number | binary => exact Bool.false_ne_true first
    | binary => cases u with
      | binary => exact notBinary _ _ _ _ _ _ _ _ rfl rfl
      | number | symbol => exact Bool.false_ne_true first

theorem CoherentWith.beq_iff {t u : Tree} (coherent : t.CoherentWith u) :
    (t == u) = true ↔ (t.expr == u.expr) = true := by
  change equalPairs [(t, u)] = true ↔ _
  rw [equalPairs_iff _ (by simpa using coherent), List.forall_mem_singleton]

end Tree

end ExprGraph

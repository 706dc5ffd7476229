import ExprGraph.Tree.Basic

set_option autoImplicit false

namespace ExprGraph.Tree

def pairsSize : List (Tree × Tree) → Nat
  | [] => 0
  | (t, _) :: rest => t.size + pairsSize rest

def equalPairs : List (Tree × Tree) → Bool
  | [] => true
  | (t, u) :: rest =>
    if t.same u then equalPairs rest
    else match t, u with
      | .number _ v, .number _ w => v == w && equalPairs rest
      | .symbol _ s, .symbol _ r => s == r && equalPairs rest
      | .binary _ code lhs rhs, .binary _ code' lhs' rhs' =>
        code == code' && equalPairs ((rhs, rhs') :: (lhs, lhs') :: rest)
      | _, _ => false
termination_by pairs => pairsSize pairs
decreasing_by
  · have := size_pos t; simp [pairsSize]; omega
  · simp [pairsSize, size]
  · simp [pairsSize, size]
  · simp [pairsSize, size]; omega

instance : BEq Tree := ⟨fun t u => equalPairs [(t, u)]⟩

end ExprGraph.Tree

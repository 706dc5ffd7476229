import ExprGraph.Proofs.Evaluation.Unbound
import ExprGraph.Proofs.Ladder.Building

set_option autoImplicit false

namespace ExprGraph

namespace Bindings

variable {bindings others : Bindings} {name : String} {value : Float}

def Gives (bindings : Bindings) (name : String) (value : Float) : Prop :=
  ∃ before after, bindings = before ++ ⟨name, value⟩ :: after ∧
    ∀ later ∈ after, later.name ≠ name

theorem lookup?_eq_some_iff : bindings.lookup? name = some value ↔ bindings.Gives name value := by
  rw [lookup?, List.findRev?_eq_find?_reverse, Option.map_eq_some_iff]
  constructor
  · rintro ⟨⟨_, _⟩, found, rfl⟩
    obtain ⟨same, after, before, split, others⟩ := List.find?_eq_some_iff_append.mp found
    obtain rfl := of_decide_eq_true same
    refine ⟨before.reverse, after.reverse, ?_, by simpa using others⟩
    simpa using congrArg List.reverse split
  · rintro ⟨before, after, rfl, others⟩
    refine ⟨⟨name, value⟩, ?_, rfl⟩
    apply List.find?_eq_some_iff_append.mpr
    exact ⟨by simp, after.reverse, before.reverse, by simp, by simpa using others⟩

theorem Gives.binds (gives : bindings.Gives name value) : bindings.Binds name := by
  rw [Binds, lookup?_eq_some_iff.mpr gives]
  rfl

end Bindings

namespace Ladder

variable {bindings : Bindings} {e : Expr} {x y v : Float}

-- One step of the recurrence that a rung computes, its operations in this order.
def next (y v : Float) : Float := (v + v * y) / (1 + y)

end Ladder

end ExprGraph

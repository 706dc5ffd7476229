import Mathlib
import ExprGraph.Number

set_option autoImplicit false

namespace ExprGraph.Number

def SameValue : Number → Number → Prop
  | .bool a, .bool b => a = b
  | .int i, .int j => i = j
  | .float x, .float y => (x == y) = true ∨ x.isNaN = true ∧ y.isNaN = true
  | _, _ => False

theorem canonical_float (x : Float) :
    (float x).canonical = .float (if x = -0 then 0 else x) := by
  have zero : (0.0 : Float) = 0 := by decide
  simp only [canonical, Float.toBits_inj, zero]

theorem canonical_float_eq_iff (x y : Float) :
    (float x).canonical = (float y).canonical ↔ (float x).SameValue (.float y) := by
  have zero : (0 : Float) ≠ .nan := by decide
  have negative : (-0 : Float) ≠ .nan := by decide
  simp only [canonical_float, SameValue, Float.beq_iff_ne_nan_and_eq,
    Float.isNaN_eq_decide_eq_nan, decide_eq_true_eq, float.injEq]
  grind

theorem beq_iff_canonical {v w : Number} : (v == w) = true ↔ v.canonical = w.canonical :=
  decide_eq_true_iff

theorem beq_iff_sameValue {v w : Number} : (v == w) = true ↔ v.SameValue w := by
  rw [beq_iff_canonical]
  cases v with
  | bool a => cases w <;> simp [canonical, SameValue]
  | int i => cases w <;> simp [canonical, SameValue]
  | float x => cases w with
    | bool | int => simp [canonical, SameValue]
    | float y => exact canonical_float_eq_iff x y

variable {u v w : Number}

theorem SameValue.refl (v : Number) : v.SameValue v :=
  beq_iff_sameValue.mp (beq_iff_canonical.mpr rfl)

theorem SameValue.symm (h : v.SameValue w) : w.SameValue v := by
  rw [← beq_iff_sameValue, beq_iff_canonical] at h ⊢
  exact h.symm

theorem SameValue.trans (first : u.SameValue v) (second : v.SameValue w) : u.SameValue w := by
  rw [← beq_iff_sameValue, beq_iff_canonical] at first second ⊢
  exact first.trans second

end ExprGraph.Number

import ExprGraph.Proofs.Exchange.NormalForm
import ExprGraph.Proofs.Prefix.Characters
import ExprGraph.Proofs.Tree.Equality

set_option autoImplicit false

namespace ExprGraph

theorem Number.eq_iff_beq {v w : Number} : v = w ↔ (v == w) = true ∧
    ∀ x y, v = .float x → w = .float y → x ∈ [0.0, -0.0] → y ∈ [0.0, -0.0] →
      Ieee.isNegative x = Ieee.isNegative y := by
  constructor
  · rintro rfl
    refine ⟨Number.beq_self v, ?_⟩
    rintro x y rfl same - -
    rw [Number.float.inj same]
  rintro ⟨equal, signs⟩
  have canonical : v.canonical = w.canonical := of_decide_eq_true equal
  have ofBits {x y : Float} (same : x.toBits = y.toBits) : x = y := by
    rw [← Float.ofBits_toBits x, same, Float.ofBits_toBits]
  have positive : Ieee.isNegative 0.0 = false := by decide
  have negative : Ieee.isNegative (-0.0) = true := by decide
  match v, w with
  | .bool a, .bool b => exact canonical
  | .int i, .int j => exact canonical
  | .float x, .float y =>
    have values := Number.float.inj canonical
    split at values <;> split at values
    case isTrue.isTrue left right => rw [ofBits left, ofBits right]
    case isTrue.isFalse left _ =>
      have sign := signs x y rfl rfl (by simp [ofBits left]) (by simp [← values])
      rw [ofBits left, ← values, positive, negative] at sign
      contradiction
    case isFalse.isTrue _ right =>
      have sign := signs x y rfl rfl (by simp [values]) (by simp [ofBits right])
      rw [ofBits right, values, positive, negative] at sign
      contradiction
    case isFalse.isFalse => rw [values]
  | .bool _, .int _ | .bool _, .float _ | .int _, .bool _ | .int _, .float _ | .float _, .bool _
  | .float _, .int _ => simp [Number.canonical] at canonical

inductive Side where
  | left
  | right
deriving DecidableEq, Repr

namespace Expr

def below? : Expr → List Side → Option Expr
  | e, [] => some e
  | .binary _ lhs _, .left :: rest => lhs.below? rest
  | .binary _ _ rhs, .right :: rest => rhs.below? rest
  | .number _, _ :: _ => none
  | .symbol _, _ :: _ => none

def ZerosAgree (e d : Expr) : Prop :=
  ∀ place x y, e.below? place = some (.number (.float x)) →
    d.below? place = some (.number (.float y)) → x ∈ [0.0, -0.0] → y ∈ [0.0, -0.0] →
    Ieee.isNegative x = Ieee.isNegative y

variable {e d : Expr}

theorem eq_iff_beq : e = d ↔ (e == d) = true ∧ e.ZerosAgree d := by
  constructor
  · rintro rfl
    refine ⟨beq_self e, ?_⟩
    rintro place x y first second - -
    rw [first] at second
    rw [Number.float.inj (number.inj (Option.some.inj second))]
  rintro ⟨equal, zeros⟩
  induction e generalizing d with
  | number v => cases d with
    | number w =>
      refine congrArg number (Number.eq_iff_beq.mpr ⟨equal, ?_⟩)
      rintro x y rfl rfl
      exact zeros [] x y rfl rfl
    | symbol | binary => exact absurd equal Bool.false_ne_true
  | symbol s => cases d with
    | symbol r => rw [eq_of_beq (a := s) equal]
    | number | binary => exact absurd equal Bool.false_ne_true
  | binary code lhs rhs left right => cases d with
    | number | symbol => exact absurd equal Bool.false_ne_true
    | binary code' lhs' rhs' =>
      simp only [beq_binary, Bool.and_eq_true] at equal
      rw [eq_of_beq equal.1, left equal.2.1 fun place => zeros (.left :: place),
        right equal.2.2 fun place => zeros (.right :: place)]

end Expr

namespace Tree

variable {t u : Tree}

/-- Two trees have the same prefix text exactly if they are equal and their zeros agree. -/
theorem repr_eq_iff (first : t.Coherent) (second : u.Coherent) (both : t.CoherentWith u) :
    (∃ text, t.repr = .ok text) ∧ (∃ text, u.repr = .ok text) ∧
    (t.repr = u.repr ↔ (t == u) = true ∧ t.expr.ZerosAgree u.expr) ∧
    (t.repr = u.repr ↔ t.expr = u.expr) ∧
    ∀ (context : Context) (root : Node) (e : Expr), context.Reachable → context.Unfolds root e →
      (context.repr root = t.repr ↔ e = t.expr) := by
  have texts : t.repr = u.repr ↔ t.expr = u.expr := by
    rw [first.repr_eq, second.repr_eq, Except.ok.injEq, Expr.fold_reprLayer_inj]
  refine ⟨⟨_, first.repr_eq⟩, ⟨_, second.repr_eq⟩, ?_, texts, ?_⟩
  · rw [texts, both.beq_iff, Expr.eq_iff_beq]
  · intro context root e reachable unfolds
    rw [first.repr_eq, reachable.ordered.repr_eq unfolds, Except.ok.injEq, Expr.fold_reprLayer_inj]

def zeroPlus (id : Nat) (zero : Float) : Tree :=
  binary (id + 1) .add (number id (.float zero)) (symbol 0 "Add(1, 2)")

theorem repr_zeroPlus :
    (zeroPlus 1 0.0).Coherent ∧ (zeroPlus 3 (-0.0)).Coherent ∧
      (zeroPlus 1 0.0).CoherentWith (zeroPlus 3 (-0.0)) ∧
      (zeroPlus 1 0.0 == zeroPlus 3 (-0.0)) = true ∧
      (zeroPlus 1 0.0).repr ≠ (zeroPlus 3 (-0.0)).repr ∧
      ∃ text, (zeroPlus 1 0.0).repr = .ok text := by
  have first : (zeroPlus 1 0.0).Coherent := by simp [Coherent, zeroPlus, subtrees, identity]
  have second : (zeroPlus 3 (-0.0)).Coherent := by simp [Coherent, zeroPlus, subtrees, identity]
  have both : (zeroPlus 1 0.0).CoherentWith (zeroPlus 3 (-0.0)) := by
    simp [CoherentWith, zeroPlus, subtrees, identity]
  obtain ⟨text, _, _, same, _⟩ := repr_eq_iff first second both
  have apart : (zeroPlus 1 0.0).expr ≠ (zeroPlus 3 (-0.0)).expr := by decide
  have equal : (zeroPlus 1 0.0 == zeroPlus 3 (-0.0)) = true := by
    rw [both.beq_iff]
    decide
  exact ⟨first, second, both, equal, mt same.mp apart, text⟩

end Tree

end ExprGraph

import ExprGraph.Context.Traversal
import ExprGraph.Proofs.Graph.Uses
import Mathlib.Logic.Function.Basic

set_option autoImplicit false

namespace ExprGraph.Traversal

variable {R : Type}

def usesOf (t : Traversal R) (node : Node) : Nat := t.uses[node.index]?.getD 0

def put (t : Traversal R) (node : Node) (value : R) : Traversal R :=
  { t with results := t.results.setIfInBounds node.index (some value) }

theorem store_needed (t : Traversal R) (node : Node) (op : Op Node) (value : R) :
    t.store .needed node op value = op.operands.foldl release (t.put node value) := rfl

theorem put_result? {t : Traversal R} {node : Node} (inside : node.index < t.results.size)
    (value : R) (n : Node) :
    (t.put node value).result? n = if n = node then some value else t.result? n := by
  by_cases same : n = node
  · subst same
    simp [result?, put, inside]
  · simp [result?, put, same, Ne.symm same]

theorem release_usesOf (t : Traversal R) (operand node : Node) :
    (t.release operand).usesOf node = t.usesOf node - [operand].count node := by
  by_cases same : operand = node
  · subst same
    simp only [release, usesOf, Array.getElem?_setIfInBounds, if_true, List.count_singleton_self]
    split
    case isTrue inside => simp
    case isFalse outside => simp [Array.getElem?_eq_none (Nat.not_lt.mp outside)]
  · simp [release, usesOf, same]

theorem release_result? (t : Traversal R) (operand node : Node) :
    (t.release operand).result? node =
      if node = operand ∧ t.usesOf node - 1 = 0 then none else t.result? node := by
  by_cases last : t.usesOf operand - 1 = 0
  · have reset : (t.release operand).results = t.results.setIfInBounds operand.index none :=
      if_pos last
    by_cases same : node = operand
    · subst same
      rw [result?, reset, Array.getElem?_setIfInBounds_self]
      split <;> simp [last]
    · simp [result?, reset, same, Ne.symm same]
  · have kept : (t.release operand).results = t.results := if_neg last
    have stays : ¬ (node = operand ∧ t.usesOf node - 1 = 0) := by
      rintro ⟨rfl, spent⟩
      exact last spent
    rw [result?, kept, if_neg stays, result?]

theorem releases_usesOf (operands : List Node) (t : Traversal R) (node : Node) :
    (operands.foldl release t).usesOf node = t.usesOf node - operands.count node := by
  induction operands generalizing t with
  | nil => simp
  | cons operand rest ih =>
    rw [List.foldl_cons, ih, release_usesOf, Nat.sub_sub, ← List.count_append,
      List.singleton_append]

theorem releases_result? (operands : List Node) (t : Traversal R) (node : Node) :
    (operands.foldl release t).result? node =
      if node ∈ operands ∧ t.usesOf node - operands.count node = 0 then none
      else t.result? node := by
  induction operands generalizing t with
  | nil => simp
  | cons operand rest ih =>
    rw [List.foldl_cons, ih, release_usesOf, release_result?, Nat.sub_sub, ← List.count_append,
      List.singleton_append]
    by_cases same : node = operand
    · subst same
      by_cases again : node ∈ rest
      · have bound : t.usesOf node - (node :: rest).count node ≤ t.usesOf node - 1 := by
          rw [List.count_cons_self]
          omega
        grind
      · simp [again, List.count_eq_zero_of_not_mem again]
    · simp [same]

@[simp] theorem releases_todo (operands : List Node) (t : Traversal R) :
    (operands.foldl release t).todo = t.todo := by
  induction operands generalizing t with
  | nil => rfl
  | cons operand rest ih => exact ih (t.release operand)

@[simp] theorem store_todo (retention : Retention) (t : Traversal R) (node : Node) (op : Op Node)
    (value : R) : (t.store retention node op value).todo = t.todo := by
  cases retention with
  | all => rfl
  | needed => exact releases_todo op.operands (t.put node value)

theorem releases_size (operands : List Node) (t : Traversal R) :
    (operands.foldl release t).results.size = t.results.size ∧
      (operands.foldl release t).uses.size = t.uses.size := by
  induction operands generalizing t with
  | nil => exact ⟨rfl, rfl⟩
  | cons operand rest ih =>
    obtain ⟨results, uses⟩ := ih (t.release operand)
    refine ⟨results.trans ?_, uses.trans ?_⟩
    · simp only [release]
      split <;> simp
    · simp [release]

def Kept (retention : Retention) (context : Context) (root : Node) (remaining : List Node)
    (node : Node) : Prop :=
  retention = .all ∨ node = root ∨ 0 < context.demand remaining node

instance (retention : Retention) (context : Context) (root : Node) (remaining : List Node)
    (node : Node) : Decidable (Kept retention context root remaining node) :=
  inferInstanceAs (Decidable (_ ∨ _ ∨ _))

theorem kept_root (retention : Retention) (context : Context) (root : Node)
    (remaining : List Node) : Kept retention context root remaining root :=
  Or.inr (Or.inl rfl)

theorem kept_of_use (retention : Retention) {context : Context} {root node user : Node}
    {remaining : List Node} (remains : user ∈ remaining)
    (used : node ∈ context.operandsOf user) : Kept retention context root remaining node :=
  Or.inr (Or.inr (Context.demand_pos_iff.mpr ⟨user, remains, used⟩))

structure Tables (retention : Retention) (context : Context) (root : Node) (remaining : List Node)
    (known : Node → Option R) (t : Traversal R) : Prop where
  results_size : t.results.size = context.size
  uses_size : t.uses.size = context.size
  results : ∀ node, t.result? node =
    if Kept retention context root remaining node then known node else none
  uses : retention = .needed → ∀ node, context.Contains node →
    t.usesOf node = context.demand remaining node

variable {retention : Retention} {context : Context} {root : Node}

theorem Tables.start (ordered : context.Ordered) (contained : context.Contains root) :
    Tables retention context root (context.order root) (fun _ => none)
      (Traversal.start context root : Traversal R) where
  results_size := Array.size_replicate
  uses_size := Context.size_countUses root
  results node := by
    simp only [result?, Traversal.start, Array.getElem?_replicate, ite_self]
    split <;> rfl
  uses _ node h := by
    simp [usesOf, Traversal.start, ordered.getElem?_countUses contained h]

theorem Tables.with_todo {remaining : List Node} {known : Node → Option R} {t : Traversal R}
    (tables : Tables retention context root remaining known t) (todo : List Node) :
    Tables retention context root remaining known { t with todo } :=
  ⟨tables.results_size, tables.uses_size, tables.results, tables.uses⟩

theorem Tables.put_result? {node : Node} {remaining : List Node} {known : Node → Option R}
    {t : Traversal R} (tables : Tables retention context root (node :: remaining) known t)
    (contained : context.Contains node) (value : R) (n : Node) :
    (t.put node value).result? n =
      if Kept retention context root (node :: remaining) n ∨ n = node then
        Function.update known node (some value) n
      else none := by
  have inside : node.index < t.results.size := tables.results_size ▸ contained
  rw [Traversal.put_result? inside, tables.results n]
  by_cases same : n = node
  · simp [same]
  · simp [same]

theorem Tables.store {node : Node} {op : Op Node} {remaining : List Node}
    {known : Node → Option R} {t : Traversal R}
    (tables : Tables retention context root (node :: remaining) known t)
    (ordered : context.Ordered) (found : context.op? node = some op)
    (kept : Kept retention context root remaining node) (top : root ∉ op.operands) (value : R) :
    Tables retention context root remaining (Function.update known node (some value))
      (t.store retention node op value) := by
  have operands : context.operandsOf node = op.operands := Context.operandsOf_eq found
  have contained : context.Contains node := Context.contains_iff_op?.mpr ⟨op, found⟩
  have written := tables.put_result? contained value
  have stored_size : (t.put node value).results.size = context.size := by
    simpa [put] using tables.results_size
  cases retention with
  | all =>
    refine ⟨stored_size, tables.uses_size, fun n => ?_, by simp⟩
    exact (written n).trans (by simp [Kept])
  | needed =>
    obtain ⟨results_size, uses_size⟩ := releases_size op.operands (t.put node value)
    have spent (n : Node) (h : context.Contains n) :
        (op.operands.foldl release (t.put node value)).usesOf n = context.demand remaining n := by
      have before : (t.put node value).usesOf n = _ := tables.uses rfl n h
      rw [releases_usesOf, before, Context.demand_cons, operands]
      omega
    refine ⟨results_size.trans stored_size, uses_size.trans tables.uses_size, fun n => ?_,
      fun _ => spent⟩
    rw [store_needed, releases_result?, ← releases_usesOf, written n]
    by_cases used : n ∈ op.operands
    · have other : n ≠ root := fun same => top (same ▸ used)
      rw [spent n (ordered.contains_operand (operands ▸ used))]
      by_cases last : context.demand remaining n = 0
      · simp [used, last, Kept, other]
      · simp [last, Kept, Nat.pos_of_ne_zero last]
    · have unchanged : context.demand (node :: remaining) n = context.demand remaining n := by
        rw [Context.demand_cons, operands, List.count_eq_zero_of_not_mem used, Nat.zero_add]
      have same : Kept .needed context root (node :: remaining) n ∨ n = node ↔
          Kept .needed context root remaining n := by
        simp only [Kept, unchanged]
        refine or_iff_left_of_imp ?_
        rintro rfl
        exact kept
      simp only [used, false_and, if_false, same]

end ExprGraph.Traversal

import ExprGraph.Context.History
import ExprGraph.Proofs.Arena.Import

set_option autoImplicit false

namespace ExprGraph

namespace Operand

variable {α : Type}

def added : Operand α → Nat
  | .built _ => 0
  | .number _ => 1

def Missing (o : Operand Node) (size : Nat) : Prop := ∃ node, o = .built node ∧ size ≤ node.index

@[simp] theorem missing_built {node : Node} {size : Nat} :
    (built node).Missing size ↔ size ≤ node.index := by
  simp [Missing]

@[simp] theorem not_missing_number {v : Number} {size : Nat} : ¬ (number v).Missing size := by
  simp [Missing]

theorem missing_iff {context : Context} {node : Node} :
    (built node).Missing context.size ↔ ¬ context.Contains node := by
  rw [missing_built]
  exact Nat.not_lt.symm

theorem not_missing_iff {context : Context} {node : Node} :
    ¬ (built node).Missing context.size ↔ context.Contains node := by
  rw [missing_iff, Decidable.not_not]

def settle : Operand Node → Context → Node × Context
  | .built node, context => (node, context)
  | .number v, context => context.push (.number v)

@[simp] theorem size_settle (o : Operand Node) (context : Context) :
    (o.settle context).2.size = context.size + o.added := by
  cases o with
  | built node => rfl
  | number v => exact context.size_push _

variable {context : Context} {o : Operand Node}

theorem ordered_settle (ordered : context.Ordered) (o : Operand Node) :
    (o.settle context).2.Ordered := by
  cases o with
  | built node => exact ordered
  | number v => exact ordered.push nofun

theorem contains_settle (present : ¬ o.Missing context.size) :
    (o.settle context).2.Contains (o.settle context).1 := by
  cases o with
  | built node => exact not_missing_iff.mp present
  | number v => exact Context.contains_push_self _

theorem contains_after_settle {node : Node} (o : Operand Node) (inside : context.Contains node) :
    (o.settle context).2.Contains node := by
  cases o with
  | built _ => exact inside
  | number v => exact Context.contains_push _ inside

end Operand

namespace Build

variable {context : Context} {code : Opcode} {lhs rhs o : Operand Node}

theorem run_operand_of_missing (missing : o.Missing context.size) :
    (operand o).run context = (.error .badNode, context) := by
  obtain ⟨node, rfl, past⟩ := id missing
  have outside : ¬ context.Contains node := Operand.missing_iff.mp missing
  rw [run_operand_built, if_neg outside]

theorem run_operand_of_present (present : ¬ o.Missing context.size) :
    (operand o).run context = (.ok (o.settle context).1, (o.settle context).2) := by
  cases o with
  | built node =>
    have inside : context.Contains node := Operand.contains_settle present
    rw [run_operand_built, if_pos inside]
    rfl
  | number v => rfl

theorem run_binary_of_left (left : lhs.Missing context.size) :
    (binary code lhs rhs).run context = (.error .badNode, context) := by
  simp only [binary, run_bind, run_operand_of_missing left]

theorem run_binary_of_right (left : ¬ lhs.Missing context.size)
    (right : rhs.Missing (context.size + lhs.added)) :
    (binary code lhs rhs).run context = (.error .badNode, (lhs.settle context).2) := by
  rw [← Operand.size_settle] at right
  simp only [binary, run_bind, run_operand_of_present left, run_operand_of_missing right]

theorem run_binary_of_present (left : ¬ lhs.Missing context.size)
    (right : ¬ rhs.Missing (context.size + lhs.added)) :
    (binary code lhs rhs).run context =
      let left := lhs.settle context
      let right := rhs.settle left.2
      let built := right.2.push (.binary code left.1 right.1)
      (.ok built.1, built.2) := by
  rw [← Operand.size_settle] at right
  simp only [binary, run_bind, run_operand_of_present left, run_operand_of_present right, run_push]

theorem run_binary_built {l r : Node} (left : context.Contains l) (right : context.Contains r)
    (code : Opcode) :
    (binary code (.built l) (.built r)).run context =
      (.ok (context.push (.binary code l r)).1, (context.push (.binary code l r)).2) :=
  run_binary_of_present (Operand.not_missing_iff.mpr left) (Operand.not_missing_iff.mpr right)

theorem run_binary_number {r : Node} (v : Number) (right : context.Contains r) (code : Opcode) :
    (binary code (.number v) (.built r)).run context =
      (.ok ⟨context.size + 1⟩,
        ⟨(context.ops.push (.number v)).push (.binary code ⟨context.size⟩ r)⟩) := by
  have present : ¬ (Operand.built r).Missing (context.size + 1) :=
    mt Operand.missing_built.mp (Nat.not_le.mpr (Nat.lt_succ_of_lt right))
  rw [run_binary_of_present Operand.not_missing_number present]
  simp [Operand.settle, Context.push, Context.size]

theorem ordered_binary (ordered : context.Ordered) (code : Opcode) (lhs rhs : Operand Node) :
    ((binary code lhs rhs).run context).2.Ordered := by
  by_cases left : lhs.Missing context.size
  · rwa [run_binary_of_left left]
  have first := Operand.ordered_settle ordered lhs
  by_cases right : rhs.Missing (context.size + lhs.added)
  · rwa [run_binary_of_right left right]
  rw [run_binary_of_present left right]
  rw [← Operand.size_settle] at right
  refine (Operand.ordered_settle first rhs).push ?_
  simp only [Op.operands, List.mem_cons, List.not_mem_nil, or_false]
  rintro operand (rfl | rfl)
  · exact Operand.contains_after_settle rhs (Operand.contains_settle left)
  · exact Operand.contains_settle right

theorem run_lift {α : Type} (outcome : Except Error α) (context : Context) :
    run (liftM outcome) context = (outcome, context) := rfl

theorem run_checked {α : Type} (checked : Except Error α) (terminal : α → Op Node) :
    run (do push (terminal (← checked))) context =
      match checked with
      | .ok a => (.ok (context.push (terminal a)).1, (context.push (terminal a)).2)
      | .error e => (.error e, context) := by
  rw [run_bind, run_lift]
  cases checked <;> rfl

theorem badNode_iff : ((binary code lhs rhs).run context).1 = .error .badNode ↔
    lhs.Missing context.size ∨ rhs.Missing (context.size + lhs.added) := by
  by_cases left : lhs.Missing context.size
  · simp [run_binary_of_left left, left]
  by_cases right : rhs.Missing (context.size + lhs.added)
  · simp [run_binary_of_right left right, right]
  · simp [run_binary_of_present left right, left, right]

-- The number on the left is what the node past the end then stands for.
theorem run_binary_past_end (context : Context) (code : Opcode) (v : Number) :
    (binary code (.number v) (.built ⟨context.size⟩)).run context =
      (.ok ⟨context.size + 1⟩, ⟨(context.ops.push (.number v)).push
        (.binary code ⟨context.size⟩ ⟨context.size⟩)⟩) := by
  rw [run_binary_of_present Operand.not_missing_number (by simp [Operand.added])]
  simp [Operand.settle, Context.push, Context.size]

/-- A builder fails if a node is missing, but a number on the left is added first, so a node on the
right may be the first one past the end. -/
theorem binary_badNode_iff (context : Context) (code : Opcode) (lhs rhs : Operand Node) :
    (((binary code lhs rhs).run context).1 = .error .badNode ↔
      lhs.Missing context.size ∨ rhs.Missing (context.size + lhs.added)) ∧
    (((binary code lhs rhs).run context).1 = .error .badNode ∨
      ∃ node, ((binary code lhs rhs).run context).1 = .ok node) ∧
    ((((binary code lhs rhs).run context).1 = .error .badNode ↔
      lhs.Missing context.size ∨ rhs.Missing context.size) ↔
        ¬ ∃ v, lhs = .number v ∧ rhs = .built ⟨context.size⟩) ∧
    ∀ v, (binary code (.number v) (.built ⟨context.size⟩)).run context =
      (.ok ⟨context.size + 1⟩, ⟨(context.ops.push (.number v)).push
        (.binary code ⟨context.size⟩ ⟨context.size⟩)⟩) := by
  refine ⟨badNode_iff, ?_, ?_, run_binary_past_end context code⟩
  · by_cases bad : lhs.Missing context.size ∨ rhs.Missing (context.size + lhs.added)
    · exact .inl (badNode_iff.mpr bad)
    · obtain ⟨left, right⟩ := not_or.mp bad
      exact .inr ⟨_, by rw [run_binary_of_present left right]⟩
  · rw [badNode_iff]
    cases lhs with
    | built l => simp [Operand.added]
    | number v => cases rhs with
      | built r =>
        have boundary : (Operand.built r = .built ⟨context.size⟩) ↔ r.index = context.size := by
          rw [Operand.built.injEq, ← Node.index_inj]
        simp only [Operand.not_missing_number, false_or, Operand.missing_built, Operand.added,
          Operand.number.injEq, exists_eq_left', boundary]
        omega
      | number w => simp

theorem binary_past_end :
    ¬ ∀ (context : Context) (code : Opcode) (lhs rhs : Operand Node), context.Reachable →
      (((binary code lhs rhs).run context).1 = .error .badNode ↔
        lhs.Missing context.size ∨ rhs.Missing context.size) := by
  intro rule
  have refused := rule .empty .add (.number (.int 1)) (.built default) .empty
  have missing : (Operand.built (default : Node)).Missing Context.empty.size :=
    Operand.missing_built.mpr (Nat.le_refl 0)
  have accepted := run_binary_past_end .empty .add (.int 1)
  have rejected := refused.mpr (.inr missing)
  change ((binary .add (.number (.int 1)) (.built ⟨Context.empty.size⟩)).run .empty).1 = _
    at rejected
  rw [accepted] at rejected
  contradiction

end Build

end ExprGraph

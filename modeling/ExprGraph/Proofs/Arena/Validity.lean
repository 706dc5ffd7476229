import ExprGraph.Proofs.Arena.Readers
import ExprGraph.Proofs.Exchange.Export
import ExprGraph.Proofs.Traversal.Invariant
import Mathlib.Data.List.TFAE

set_option autoImplicit false

namespace ExprGraph

variable {σ ε R : Type}

namespace Context

variable {context : Context} {node : Node}

structure Judges (context : Context) (node : Node) {α : Type} (outcome : Except Error α) : Prop where
  accepts : context.Contains node → ∃ a, outcome = .ok a
  refuses : ¬ context.Contains node → outcome = .error .badNode

namespace Judges

variable {α β : Type} {outcome : Except Error α}

theorem ok_iff (judges : context.Judges node outcome) :
    (∃ a, outcome = .ok a) ↔ context.Contains node := by
  refine ⟨fun ⟨a, ok⟩ => ?_, judges.accepts⟩
  by_contra missing
  simp [judges.refuses missing] at ok

theorem map (judges : context.Judges node outcome) (f : α → β) :
    context.Judges node (f <$> outcome) := by
  constructor
  · intro contained
    obtain ⟨a, ok⟩ := judges.accepts contained
    exact ⟨f a, by rw [ok]; rfl⟩
  · intro missing
    rw [judges.refuses missing]
    rfl

end Judges

theorem judges_opOf (context : Context) (node : Node) :
    context.Judges node (context.opOf node) := by
  constructor
  · intro contained
    obtain ⟨op, found⟩ := contains_iff_op?.mp contained
    exact ⟨op, by rw [opOf, found]⟩
  · intro missing
    rw [opOf, (context.op?_eq_none_iff node).mpr missing]

theorem Ordered.judges_fold (ordered : context.Ordered) (node : Node) (layer : Op R → R) :
    context.Judges node (context.fold node layer) := by
  constructor
  · intro contained
    obtain ⟨e, unfolds⟩ := ordered.exists_unfolds node contained
    exact ⟨_, ordered.fold_eq unfolds layer⟩
  · intro missing
    exact postorder_of_not_contains missing _

theorem exportTree_of_not_contains (missing : ¬ context.Contains node) (next : Nat) :
    context.exportTree node next = (.error .badNode, next) :=
  traverse_of_not_contains Tree.builder missing next

theorem Ordered.judges_export (ordered : context.Ordered) (node : Node) (next : Nat) :
    context.Judges node (context.exportTree node next).1 := by
  constructor
  · intro contained
    obtain ⟨t, exported, _⟩ := ordered.exists_export contained next
    exact ⟨t, by rw [exported]⟩
  · intro missing
    rw [exportTree_of_not_contains missing]

theorem run_binary_of_not_contains (missing : ¬ context.Contains node) (code : Opcode)
    (v : Number) : (Build.binary code (.built node) (.number v)).run context =
      (.error .badNode, context) :=
  Build.run_binary_of_left (Operand.missing_iff.mpr missing)

theorem judges_binary (context : Context) (node : Node) (code : Opcode) (v : Number) :
    context.Judges node ((Build.binary code (.built node) (.number v)).run context).1 := by
  constructor
  · intro contained
    have present : ¬ (Operand.built node).Missing context.size :=
      Operand.not_missing_iff.mpr contained
    exact ⟨_, by rw [Build.run_binary_of_present present Operand.not_missing_number]⟩
  · intro missing
    rw [run_binary_of_not_contains missing]

structure Refuses (context : Context) (node : Node) : Prop where
  precedence : context.precedence node = .error .badNode
  numberValue : context.numberValue node = .error .badNode
  symbolName : context.symbolName node = .error .badNode
  render : context.render node = .error .badNode
  repr : context.repr node = .error .badNode
  exportTree : ∀ next, context.exportTree node next = (.error .badNode, next)
  traverse : ∀ {σ ε R : Type} [ReportsError ε] (visit : Visitor σ ε R) (s : σ),
    context.traverse visit.logged node ([], s) = (.error (ReportsError.report .badNode), [], s)
  binary : ∀ code v, (Build.binary code (.built node) (.number v)).run context =
    (.error .badNode, context)

theorem Ordered.refuses (ordered : context.Ordered) (missing : ¬ context.Contains node) :
    context.Refuses node where
  precedence := ((context.judges_opOf node).map _).refuses missing
  numberValue := ((context.judges_opOf node).map _).refuses missing
  symbolName := ((context.judges_opOf node).map _).refuses missing
  render := ((ordered.judges_fold node _).map _).refuses missing
  repr := (ordered.judges_fold node _).refuses missing
  exportTree := exportTree_of_not_contains missing
  traverse visit s := traverse_of_not_contains visit.logged missing ([], s)
  binary := run_binary_of_not_contains missing

theorem Ordered.traverse_ok_iff [ReportsError ε] (ordered : context.Ordered) (node : Node)
    {visit : Visitor σ ε R} (total : visit.Total) (s : σ) :
    (∃ value visits s', context.traverse visit.logged node ([], s) = (.ok value, visits, s') ∧
      context.traverse visit node s = (.ok value, s') ∧ visits ≠ []) ↔ context.Contains node := by
  constructor
  · rintro ⟨value, visits, s', logged, -⟩
    by_contra missing
    simp [traverse_of_not_contains visit.logged missing] at logged
  · intro contained
    exact ordered.exists_visits_of_total contained total s

/-- All that takes a node goes by whether the context contains it, wherever the node comes from. -/
theorem readers_agree [ReportsError ε] (reachable : context.Reachable) (node : Node) (next : Nat)
    (code : Opcode) (v : Number) {visit : Visitor σ ε R} (total : visit.Total) (s : σ) :
    List.TFAE [
      node.index < context.size,
      node ∈ context.nodes,
      (context.op? node).isSome,
      ∃ precedence, context.precedence node = .ok precedence,
      ∃ value, context.numberValue node = .ok value,
      ∃ name, context.symbolName node = .ok name,
      ∃ text, context.render node = .ok text,
      ∃ text, context.repr node = .ok text,
      ∃ t, (context.exportTree node next).1 = .ok t,
      ∃ value visits s', context.traverse visit.logged node ([], s) = (.ok value, visits, s') ∧
        context.traverse visit node s = (.ok value, s') ∧ visits ≠ [],
      ∃ built, ((Build.binary code (.built node) (.number v)).run context).1 = .ok built] ∧
    (¬ context.Contains node → context.Refuses node) ∧ context.Sound := by
  have ordered := reachable.ordered
  have found := context.judges_opOf node
  refine ⟨List.tfae_of_forall (context.Contains node) _ ?_, ordered.refuses, ordered.sound⟩
  simp only [List.forall_mem_cons]
  refine ⟨Iff.rfl, context.mem_nodes node, ?op, (found.map _).ok_iff, (found.map _).ok_iff,
    (found.map _).ok_iff, ((ordered.judges_fold node _).map _).ok_iff,
    (ordered.judges_fold node _).ok_iff, (ordered.judges_export node next).ok_iff,
    ordered.traverse_ok_iff node total s, (context.judges_binary node code v).ok_iff, nofun⟩
  case op => rw [Option.isSome_iff_exists, contains_iff_op?]

theorem readers_shared :
    shared.Reachable ∧ Tree.builder.Total ∧ shared.size = 5 ∧
      (∃ text, shared.render ⟨4⟩ = .ok text) ∧ ¬ (∃ text, shared.render ⟨5⟩ = .ok text) ∧
      shared.Refuses ⟨5⟩ := by
  have total : Tree.builder.Total := fun _ _ op next => ⟨.ofOp next op, next + 1, rfl⟩
  have agree (node : Node) := readers_agree reachable_shared node 0 .add (.int 1) total 0
  have last := ((agree ⟨4⟩).1.out 0 6).mp (by decide)
  have past := ((agree ⟨5⟩).1.out 0 6).not.mp (by decide)
  exact ⟨reachable_shared, total, rfl, last, past, (agree ⟨5⟩).2.1 (by decide)⟩

end Context

end ExprGraph

import ExprGraph.Context.Loop
import ExprGraph.Proofs.Arena.History
import ExprGraph.Proofs.Traversal.Checked
import Mathlib.Algebra.BigOperators.Group.Finset.Basic
import Mathlib.Computability.StateTransition
import Mathlib.Data.Set.Card

set_option autoImplicit false

namespace ExprGraph

open StateTransition (eval)

namespace Context

variable {context : Context} {root : Node}

-- An edge is a user together with the position among its operands.
def edges (context : Context) (root operand : Node) : Set (Node × Nat) :=
  {edge | context.Reaches root edge.1 ∧ (context.operandsOf edge.1)[edge.2]? = some operand}

def edgesOf (context : Context) (users : List Node) (operand : Node) : List (Node × Nat) :=
  users.flatMap fun user => ((context.operandsOf user).idxsOf operand).map (Prod.mk user)

@[simp] theorem mem_edgesOf {users : List Node} {operand : Node} {edge : Node × Nat} :
    edge ∈ context.edgesOf users operand ↔
      edge.1 ∈ users ∧ (context.operandsOf edge.1)[edge.2]? = some operand := by
  obtain ⟨user, position⟩ := edge
  simp [edgesOf, List.getElem?_eq_some_iff]

theorem nodup_edgesOf {users : List Node} (nodup : users.Nodup) (operand : Node) :
    (context.edgesOf users operand).Nodup := by
  refine List.nodup_flatMap.mpr ⟨fun user _ => ?_, nodup.imp fun {a b} different => ?_⟩
  next => exact List.nodup_idxsOf.map (Prod.mk_right_injective user)
  next =>
    intro edge ofFirst ofSecond
    have first : edge.1 = a := by grind
    have second : edge.1 = b := by grind
    exact different (first.symm.trans second)

theorem length_edgesOf (users : List Node) (operand : Node) :
    (context.edgesOf users operand).length = context.demand users operand := by
  induction users with
  | nil => rfl
  | cons user rest ih => simpa [edgesOf] using ih

theorem demand_eq_sum {users : List Node} (nodup : users.Nodup) (operand : Node) :
    context.demand users operand =
      ∑ user ∈ users.toFinset, (context.operandsOf user).count operand := by
  rw [List.sum_toFinset _ nodup]
  induction users with
  | nil => rfl
  | cons user rest ih => simp [ih (List.nodup_cons.mp nodup).2]

theorem Ordered.edges_eq (ordered : context.Ordered) (contained : context.Contains root)
    (operand : Node) :
    context.edges root operand = (context.edgesOf (context.order root) operand).toFinset := by
  ext edge
  simp [edges, mem_order_iff ordered contained]

theorem Ordered.ncard_edges (ordered : context.Ordered) (contained : context.Contains root)
    (operand : Node) :
    (context.edges root operand).ncard = context.demand (context.order root) operand := by
  have nodup : (context.edgesOf (context.order root) operand).Nodup :=
    nodup_edgesOf (ordered.settled_order root).nodup operand
  rw [ordered.edges_eq contained, Set.ncard_coe_finset, List.toFinset_card_of_nodup nodup,
    length_edgesOf]

theorem Ordered.demand_eq_zero (ordered : context.Ordered) (contained : context.Contains root)
    {operand : Node}
    (unused : ∀ user, context.Reaches root user → operand ∉ context.operandsOf user) :
    context.demand (context.order root) operand = 0 := by
  refine Nat.eq_zero_of_not_pos fun positive => ?_
  obtain ⟨user, member, used⟩ := demand_pos_iff.mp positive
  exact unused user ((mem_order_iff ordered contained user).mp member) used

theorem edges_of_double {user operand : Node} {code : Opcode} (reaches : context.Reaches root user)
    (found : context.op? user = some (.binary code operand operand)) :
    {edge ∈ context.edges root operand | edge.1 = user} = {(user, 0), (user, 1)} := by
  have operands : context.operandsOf user = [operand, operand] := operandsOf_eq found
  ext ⟨other, position⟩
  simp only [edges, Set.mem_ofPred_eq, Set.mem_insert_iff, Set.mem_singleton_iff, Prod.mk.injEq]
  constructor
  next =>
    rintro ⟨⟨_, holds⟩, rfl⟩
    have bound : position < 2 := by
      simpa [operands] using (List.getElem?_eq_some_iff.mp holds).1
    have position_cases : position = 0 ∨ position = 1 := by omega
    simpa using position_cases
  next => rintro (⟨rfl, rfl⟩ | ⟨rfl, rfl⟩) <;> simp [reaches, operands]

theorem Counted.uses_eq_countUses {marked : List Node} {seen : Array Bool} {uses : Array Nat}
    (counted : context.Counted root marked [] seen uses) (ordered : context.Ordered)
    (contained : context.Contains root) : uses = context.countUses root := by
  refine Array.ext_getElem? fun i => ?_
  by_cases inside : i < context.size
  next =>
    have mine := counted.uses_eq ⟨i⟩ inside
    have other : (context.countUses root)[i]? = some (context.demand (context.order root) ⟨i⟩) :=
      ordered.getElem?_countUses contained inside
    rw [mine, other, demand_perm (counted.perm_order ordered contained)]
  next =>
    have mine : uses.size ≤ i := by simpa [counted.uses_size] using inside
    have other : (context.countUses root).size ≤ i := by simpa using inside
    rw [Array.getElem?_eq_none mine, Array.getElem?_eq_none other]

end Context

namespace Checked.Counting

open Context (Counted)

variable {context : Context} {root : Node}

-- The turns that a count may still take: a node that is marked is taken from those that are not,
-- and pushes at most two.
def work (c : Counting) : Nat := c.todo.length + 2 * c.seen.count false

theorem count_false_set {seen : Array Bool} {i : Nat} (inside : i < seen.size)
    (unseen : seen[i] = false) : (seen.set i true).count false + 1 = seen.count false := by
  have member : false ∈ seen := Array.mem_of_getElem unseen
  have positive := Array.count_pos_iff.mpr member
  grind

theorem turn_of_seen {c : Counting} {node : Node} {rest : List Node} (top : c.todo = node :: rest)
    (seen : c.seen[node.index]? = some true) :
    c.turn context = some { c with todo := rest } := by
  simp [turn, top, read, seen]

theorem turn_of_unseen {c : Counting} {node : Node} {op : Op Node} {rest : List Node}
    (top : c.todo = node :: rest) (inside : node.index < c.seen.size)
    (unseen : c.seen[node.index] = false) (found : context.op? node = some op)
    (inUses : ∀ operand ∈ op.operands, operand.index < c.uses.size) :
    c.turn context = some ⟨c.seen.set node.index true, Context.addUses c.uses op.operands,
      op.operands.reverse ++ rest⟩ := by
  simp [turn, top, read, inside, unseen, write, found, addUses_eq inUses, Array.setIfInBounds]

theorem exists_turn {c : Counting} {node : Node} {rest marked : List Node}
    (counted : context.Counted root marked c.todo c.seen c.uses) (ordered : context.Ordered)
    (contained : context.Contains root) (top : c.todo = node :: rest) :
    ∃ next marked', c.turn context = some next ∧ next.work < c.work ∧
      context.Counted root marked' next.todo next.seen next.uses := by
  have reaches := counted.below node (by simp [top])
  have within : context.Contains node := ordered.contains_below reaches contained
  have inside : node.index < c.seen.size := counted.seen_size ▸ within
  rw [top] at counted
  cases seen : c.seen[node.index] with
  | true =>
    have found : c.seen[node.index]? = some true := by simp [inside, seen]
    refine ⟨_, marked, turn_of_seen top found, ?_, counted.skip ((counted.seen_iff node).mp found)⟩
    simp [work, top]
  | false =>
    obtain ⟨op, found⟩ := Context.contains_iff_op?.mp within
    have operands : context.operandsOf node = op.operands := Context.operandsOf_eq found
    have new : node ∉ marked := by
      simp [← counted.seen_iff, inside, seen]
    have inUses (operand : Node) (used : operand ∈ op.operands) : operand.index < c.uses.size :=
      counted.uses_size ▸ ordered.contains_operand (operands ▸ used)
    refine ⟨_, node :: marked, turn_of_unseen top inside seen found inUses, ?_, ?_⟩
    next =>
      have fewer := count_false_set inside seen
      have few := op.length_operands_le
      simp only [work, top, List.length_append, List.length_reverse, List.length_cons]
      omega
    next =>
      have marks := counted.mark inside new
      rw [operands] at marks
      exact marks.with_todo (by simp)

theorem exists_mem_eval {c : Counting} {marked : List Node}
    (counted : context.Counted root marked c.todo c.seen c.uses) (ordered : context.Ordered)
    (contained : context.Contains root) :
    ∃ seen, ⟨seen, context.countUses root, []⟩ ∈ eval (turn context) c := by
  induction h : c.work using Nat.strongRecOn generalizing c marked with
  | ind n ih =>
    cases top : c.todo with
    | nil =>
      rw [top] at counted
      have uses := counted.uses_eq_countUses ordered contained
      refine ⟨c.seen, StateTransition.mem_eval.mpr ⟨?_, by simp [turn]⟩⟩
      rw [← uses, ← top]
      exact .refl
    | cons node rest =>
      obtain ⟨next, marked', turned, fewer, later⟩ := exists_turn counted ordered contained top
      obtain ⟨seen, ends⟩ := ih _ (h ▸ fewer) later rfl
      exact ⟨seen, StateTransition.reaches_eval (.single turned) ▸ ends⟩

end Checked.Counting

namespace Context

variable {context : Context} {root : Node}

/-- Each user counts once per position that holds the node, and the loop ends with this table. -/
theorem uses_count_edges (reachable : context.Reachable) (contained : context.Contains root) :
    (context.countUses root).size = context.size ∧
    (∀ node, context.Contains node → (context.edges root node).Finite ∧
      (context.countUses root)[node.index]? = some (context.edges root node).ncard) ∧
    (∃ users : Finset Node, (∀ user, user ∈ users ↔ context.Reaches root user) ∧
      ∀ node, context.Contains node → (context.countUses root)[node.index]? =
        some (∑ user ∈ users, (context.operandsOf user).count node)) ∧
    (∀ user code node, context.Reaches root user →
      context.op? user = some (.binary code node node) →
      {edge ∈ context.edges root node | edge.1 = user}.ncard = 2) ∧
    (∀ node, context.Contains node → ¬ context.Reaches root node →
      (context.countUses root)[node.index]? = some 0) ∧
    (context.countUses root)[root.index]? = some 0 ∧
    ∃ seen, ⟨seen, context.countUses root, []⟩ ∈
      eval (Checked.Counting.turn context) (.start context root) := by
  have ordered := reachable.ordered
  have entry (node : Node) (inside : context.Contains node) :
      (context.countUses root)[node.index]? = some (context.demand (context.order root) node) :=
    ordered.getElem?_countUses contained inside
  refine ⟨size_countUses root, ?edges, ?users, ?double, ?unreachable, ?root, ?ends⟩
  case edges =>
    intro node inside
    have finite : (context.edges root node).Finite := by
      rw [ordered.edges_eq contained]
      exact Finset.finite_toSet _
    exact ⟨finite, by rw [entry node inside, ordered.ncard_edges contained]⟩
  case users =>
    refine ⟨(context.order root).toFinset, ?_, ?_⟩
    next => simp [mem_order_iff ordered contained]
    next =>
      intro node inside
      rw [entry node inside, demand_eq_sum (ordered.settled_order root).nodup]
  case double =>
    intro user code node reaches found
    rw [edges_of_double reaches found]
    exact Set.ncard_pair (by simp)
  case unreachable =>
    intro node inside unreachable
    have unused : ∀ user, context.Reaches root user → node ∉ context.operandsOf user :=
      fun user reaches used => unreachable (reaches.operand used)
    rw [entry node inside, ordered.demand_eq_zero contained unused]
  case root =>
    have unused : ∀ user, context.Reaches root user → root ∉ context.operandsOf user :=
      fun user reaches used => ordered.acyclic root ((depends_operand used).of_reaches reaches)
    rw [entry root contained, ordered.demand_eq_zero contained unused]
  case ends =>
    exact Checked.Counting.exists_mem_eval (counted_start root) ordered contained

theorem countUses_shared : shared.countUses ⟨4⟩ = #[2, 1, 2, 1, 0] := by
  simp [countUses, countUsesFrom, shared, size, addUses, operandsOf, op?, Op.operands]
  rfl

theorem edges_shared :
    shared.Reachable ∧ shared.Contains ⟨4⟩ ∧ (shared.edges ⟨4⟩ ⟨0⟩).ncard = 2 ∧
      (shared.edges ⟨4⟩ ⟨2⟩).ncard = 2 ∧
      ∃ seen, ⟨seen, #[2, 1, 2, 1, 0], []⟩ ∈
        eval (Checked.Counting.turn shared) (.start shared ⟨4⟩) := by
  have contained : shared.Contains ⟨4⟩ := by decide
  obtain ⟨_, edges, _, _, _, _, ends⟩ := uses_count_edges reachable_shared contained
  rw [countUses_shared] at edges ends
  have symbol := (edges ⟨0⟩ (by decide)).2
  have sum := (edges ⟨2⟩ (by decide)).2
  exact ⟨reachable_shared, contained, by simpa using symbol.symm, by simpa using sum.symm, ends⟩

end Context

end ExprGraph

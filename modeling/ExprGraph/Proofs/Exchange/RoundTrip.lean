import ExprGraph.Proofs.Exchange.NormalForm
import ExprGraph.Proofs.Tree.Equality
import Mathlib.Data.Set.Card
import Mathlib.Tactic.IntervalCases

set_option autoImplicit false

namespace ExprGraph

namespace Tree

variable {context : Context} {t : Tree}

theorem export_import (reachable : context.Reachable) (coherent : t.Coherent) (calls : List Call)
    (kept : ∀ call ∈ calls, call ≠ .clear) (next : Nat) :
    ∃ u next', ((context.importTree t).2.afterAll calls).exportTree (context.importTree t).1 next =
        (.ok u, next') ∧
      t.Isomorphic u ∧ u.Coherent ∧ (∀ id ∈ u.identities, next ≤ id ∧ id < next') ∧
      u.nodes.length = t.nodes.length ∧ (u == t) = true ∧ u.render = t.render ∧
      u.repr = t.repr ∧ (∃ text, t.render = .ok text) ∧ ∃ text, t.repr = .ok text := by
  have imported : (context.importTree t).2.Reachable := .after (.importTree t) reachable
  have ordered := (imported.afterAll calls).ordered
  have first := (coherent.embeds_import context).mono (Context.keeps_afterAll calls kept)
  rw [coherent.importTree_node]
  obtain ⟨u, exported, second, root, fresh⟩ :=
    ordered.exists_export (first.contains t.self_mem_subtrees) next
  have firstOrder := first.order_eq ordered
  have secondOrder := second.order_eq ordered
  have alone := first.alone_eq ordered
  have aloneAgain := second.alone_eq ordered
  rw [root] at secondOrder aloneAgain
  have lengths := congrArg List.length (firstOrder.symm.trans secondOrder)
  rw [List.length_map, List.length_map] at lengths
  have exprs : u.expr = t.expr := by
    have unfolds := second.unfolds
    rw [root] at unfolds
    exact unfolds.unique first.unfolds
  refine ⟨u, _, exported, first.isomorphic second root.symm, second.coherent, fresh, lengths.symm,
    beq_of_expr_eq exprs, ?_, ?_, ⟨_, coherent.render_eq⟩, ⟨_, coherent.repr_eq⟩⟩
  · rw [render, render, aloneAgain, alone]
  · rw [repr, repr, aloneAgain, alone]

def moreCalls : List Call :=
  [.symbol "z", .binary .pow (.built ⟨12⟩) (.number (.int 2)), .importTree squareTwice]

theorem export_squareTwice :
    Context.shared.Reachable ∧ squareTwice.Coherent ∧ (∀ call ∈ moreCalls, call ≠ .clear) ∧
      ∃ u next', ((Context.shared.importTree squareTwice).2.afterAll moreCalls).exportTree
          (Context.shared.importTree squareTwice).1 100 = (.ok u, next') ∧
        squareTwice.Isomorphic u ∧ u.nodes.length = 8 ∧ (u == squareTwice) = true := by
  have kept : ∀ call ∈ moreCalls, call ≠ .clear := by simp [moreCalls]
  obtain ⟨u, next', exported, isomorphic, _, _, length, equal, _⟩ :=
    export_import Context.reachable_shared coherent_squareTwice moreCalls kept 100
  exact ⟨Context.reachable_shared, coherent_squareTwice, kept, u, next', exported, isomorphic,
    length, equal⟩

end Tree

namespace Context

variable {context : Context} {root : Node}

theorem Ordered.ncard_below (ordered : context.Ordered) (contained : context.Contains root) :
    {node | context.Reaches root node}.ncard = (context.order root).length := by
  have below : {node | context.Reaches root node} = ((context.order root).toFinset : Set Node) := by
    ext node
    simp [mem_order_iff ordered contained]
  rw [below, Set.ncard_coe_finset,
    List.toFinset_card_of_nodup (ordered.settled_order root).nodup]

theorem InOrder.normalForm_eq {ε R : Type} {visits : List (Visit ε R)} {value : R}
    (inOrder : context.InOrder root visits (.ok value)) :
    (context.normalForm root).ops.toList = visits.map fun v =>
      v.op.map fun operand => ⟨(visits.map Visit.node).idxOf operand⟩ := by
  rw [normalForm, ← inOrder.complete value rfl, List.filterMap_map]
  refine List.filterMap_eq_map_iff_forall_eq_some.mpr fun v member => ?_
  rw [Function.comp_apply, inOrder.recorded.op v member]
  rfl

/-- A fresh context is a normal form: every node with the same graph below it leads there. -/
theorem import_export (reachable : context.Reachable) (contained : context.Contains root) :
    (∀ next, context.roundTrip root next =
      .ok (⟨(context.normalForm root).size - 1⟩, context.normalForm root)) ∧
    (context.normalForm root).size = {node | context.Reaches root node}.ncard ∧
    (∀ {σ ε R : Type} [ReportsError ε] (visit : Visitor σ ε R) (s s' : σ)
      (visits : List (Visit ε R)) (value : R),
      context.traverse visit.logged root ([], s) = (.ok value, visits, s') →
      (context.normalForm root).ops.toList = visits.map fun v =>
        v.op.map fun operand => ⟨(visits.map Visit.node).idxOf operand⟩) ∧
    (∀ next, (context.normalForm root).roundTrip ⟨(context.normalForm root).size - 1⟩ next =
      .ok (⟨(context.normalForm root).size - 1⟩, context.normalForm root)) ∧
    ∀ (other : Context) (otherRoot : Node), other.Reachable →
      context.SameGraph root other otherRoot →
      (∀ next, other.roundTrip otherRoot next =
        .ok (⟨(context.normalForm root).size - 1⟩, context.normalForm root)) ∧
      other.render otherRoot = context.render root ∧ other.repr otherRoot = context.repr root := by
  have ordered := reachable.ordered
  obtain ⟨normalOrdered, normalContains, normalAgain⟩ := ordered.normalForm_normalForm contained
  refine ⟨ordered.roundTrip_eq contained, ?_, ?_, fun next => ?_, ?_⟩
  · rw [ordered.size_normalForm contained, ordered.ncard_below contained]
  · intro σ ε R _ visit s s' visits value logged
    obtain ⟨again, outcome, s₁, same, _, inOrder⟩ := ordered.exists_visits contained visit s
    obtain ⟨rfl, rfl, _⟩ : Except.ok value = outcome ∧ visits = again ∧ s' = s₁ := by
      simpa using logged.symm.trans same
    exact inOrder.normalForm_eq
  · rw [normalOrdered.roundTrip_eq normalContains, normalAgain]
  · intro other otherRoot otherReachable same
    have otherOrdered := otherReachable.ordered
    obtain ⟨e, unfolds, otherUnfolds⟩ := same.exists_expr ordered contained
    refine ⟨fun next => ?_, ?_, ?_⟩
    · rw [otherOrdered.roundTrip_eq (same.contains contained),
        same.normalForm_eq ordered otherOrdered contained]
    · rw [ordered.render_eq unfolds, otherOrdered.render_eq otherUnfolds]
    · rw [ordered.repr_eq unfolds, otherOrdered.repr_eq otherUnfolds]

def scattered : Context where
  ops := #[.symbol "y", .number (.int 1), .symbol "x", .binary .add ⟨2⟩ ⟨1⟩, .binary .mul ⟨3⟩ ⟨3⟩,
    .binary .sub ⟨4⟩ ⟨2⟩]

theorem reachable_scattered : scattered.Reachable := by
  have terminals : Reachable _ :=
    .after (.symbol "x") (.after (.number (.int 1)) (.after (.symbol "y") .empty))
  have sum : Reachable _ := .after (.binary .add (.built ⟨2⟩) (.built ⟨1⟩)) terminals
  have square : Reachable _ := .after (.binary .mul (.built ⟨3⟩) (.built ⟨3⟩)) sum
  exact .after (.binary .sub (.built ⟨4⟩) (.built ⟨2⟩)) square

def scatter : Node → Node
  | ⟨0⟩ => ⟨2⟩
  | ⟨1⟩ => ⟨1⟩
  | ⟨n + 2⟩ => ⟨n + 3⟩

theorem sameGraph_scattered : shared.SameGraph ⟨4⟩ scattered ⟨5⟩ := by
  refine ⟨scatter, rfl, Function.Injective.injOn ?_, ?_⟩
  · rintro ⟨_ | _ | a⟩ ⟨_ | _ | b⟩ <;> simp [scatter]
  · intro node reaches
    have inside := reachable_shared.ordered.contains_below reaches (by decide)
    obtain ⟨index⟩ := node
    have bound : index < 5 := inside
    interval_cases index <;> rfl

theorem roundTrip_scattered :
    shared.Reachable ∧ shared.Contains ⟨4⟩ ∧ scattered.Reachable ∧
      shared.SameGraph ⟨4⟩ scattered ⟨5⟩ ∧
      shared.roundTrip ⟨4⟩ 0 = .ok (⟨4⟩, shared) ∧
      scattered.roundTrip ⟨5⟩ 0 = .ok (⟨4⟩, shared) := by
  have contained : shared.Contains ⟨4⟩ := by decide
  have order : shared.order ⟨4⟩ = [⟨0⟩, ⟨1⟩, ⟨2⟩, ⟨3⟩, ⟨4⟩] := by
    simp [Context.order, orderFrom, shared, op?]
  have normal : shared.normalForm ⟨4⟩ = shared := by
    rw [normalForm, order]
    rfl
  obtain ⟨first, _, _, _, second⟩ := import_export reachable_shared contained
  have both := second scattered ⟨5⟩ reachable_scattered sameGraph_scattered
  rw [normal] at first both
  exact ⟨reachable_shared, contained, reachable_scattered, sameGraph_scattered, first 0, both.1 0⟩

end Context

end ExprGraph

import ExprGraph.Proofs.Arena.Growth
import ExprGraph.Proofs.Construction.Program
import ExprGraph.Proofs.Exchange.Embedding

set_option autoImplicit false

namespace ExprGraph

def counted (first id : Nat) : Node := ⟨id - first⟩

structure Mirrors (first : Nat) (context : Context) (t : Tree) (node : Node) : Prop where
  identity : t.identity = first + node.index
  below : ∀ u ∈ t.subtrees, first ≤ u.identity ∧
    context.op? (counted first u.identity) = some (u.op.map fun v => counted first v.identity)

namespace Mirrors

variable {first : Nat} {context later : Context} {t u : Tree} {node other : Node}

theorem counted_eq (mirrors : Mirrors first context t node) : counted first t.identity = node := by
  rw [counted, mirrors.identity, Nat.add_sub_cancel_left]

theorem mono (mirrors : Mirrors first context t node) (keeps : context.Keeps later) :
    Mirrors first later t node :=
  ⟨mirrors.identity, fun u below => (mirrors.below u below).imp_right (keeps _ _)⟩

theorem embeds (mirrors : Mirrors first context t node) : t.Embeds context (counted first) := by
  refine ⟨fun u below => (mirrors.below u below).2, ?_⟩
  rintro _ ⟨u, uBelow, rfl⟩ _ ⟨v, vBelow, rfl⟩ same
  have distance : u.identity - first = v.identity - first := congrArg Node.index same
  have uFirst := (mirrors.below u uBelow).1
  have vFirst := (mirrors.below v vBelow).1
  omega

theorem contains (mirrors : Mirrors first context t node) : context.Contains node := by
  rw [← mirrors.counted_eq]
  exact mirrors.embeds.contains t.self_mem_subtrees

theorem eq_of_identity_eq (mirrors : Mirrors first context t node)
    (others : Mirrors first context u other) {a b : Tree} (left : a ∈ t.subtrees)
    (right : b ∈ u.subtrees) (same : a.identity = b.identity) : a = b := by
  induction a using Tree.induction_on generalizing b with
  | step a ih =>
    have layers : (a.op.map fun v => counted first v.identity) =
        b.op.map fun v => counted first v.identity :=
      (mirrors.embeds.of_subtree left).layers_eq (others.embeds.of_subtree right)
        (congrArg (counted first) same)
    have operands : a.op.map id = b.op := by
      apply Op.map_eq_of_map_eq_map layers
      intro x used y usedToo place
      have xBelow := Tree.mem_subtrees_trans left (Tree.operand_mem_subtrees used)
      have yBelow := Tree.mem_subtrees_trans right (Tree.operand_mem_subtrees usedToo)
      have distance : x.identity - first = y.identity - first := congrArg Node.index place
      have fromFirst := (mirrors.below x xBelow).1
      have fromFirstToo := (others.below y yBelow).1
      exact ih x used xBelow yBelow (by omega)
    have unmapped : a.op.map id = a.op := by cases a <;> rfl
    rw [← Tree.ofOp_op a, ← Tree.ofOp_op b, same, ← unmapped, operands]

theorem push {op : Op Tree} (operands : ∀ v ∈ op.operands, ∃ n, Mirrors first context v n) :
    Mirrors first (context.push (op.map fun v => counted first v.identity)).2
      (.ofOp (first + context.size) op)
      (context.push (op.map fun v => counted first v.identity)).1 := by
  refine ⟨Tree.identity_ofOp _ _, fun u below => ?_⟩
  rcases Tree.mem_subtrees_iff.mp below with rfl | ⟨v, used, inside⟩
  · rw [Tree.identity_ofOp, Tree.op_ofOp, counted, Nat.add_sub_cancel_left]
    exact ⟨Nat.le_add_right _ _, context.op?_push_self _⟩
  · rw [Tree.operands, Tree.op_ofOp] at used
    obtain ⟨n, mirrors⟩ := operands v used
    exact (mirrors.mono (context.keeps_push _)).below u inside

end Mirrors

inductive Operand.Mirrors (first : Nat) (context : Context) : Operand Tree → Operand Node → Prop
  where
  | built {t : Tree} {node : Node} (mirrors : ExprGraph.Mirrors first context t node) :
    Operand.Mirrors first context (.built t) (.built node)
  | number (v : Number) : Operand.Mirrors first context (.number v) (.number v)

theorem Operand.Mirrors.mono {first : Nat} {context later : Context} {o : Operand Tree}
    {o' : Operand Node} (mirrors : Operand.Mirrors first context o o')
    (keeps : context.Keeps later) : Operand.Mirrors first later o o' := by
  cases mirrors with
  | built mirrors => exact .built (mirrors.mono keeps)
  | number v => exact .number v

theorem Fresh.run_bind {α β : Type} {make : Fresh α} {next : α → Fresh β} {s s' : Nat} {a : α}
    (made : make s = (a, s')) : (make >>= next) s = next a s' := by
  change next (make s).1 (make s).2 = _
  rw [made]

structure Together (first : Nat) (context : Context) (make : Fresh Tree) (build : Build Node)
    (t : Tree) (node : Node) (later : Context) : Prop where
  made : make (first + context.size) = (t, first + later.size)
  built : build.run context = (.ok node, later)
  keeps : context.Keeps later
  ordered : context.Ordered → later.Ordered
  mirrors : Mirrors first later t node

namespace Together

variable {first : Nat} {context : Context}

theorem exists_node {op : Op Tree} (operands : ∀ v ∈ op.operands, ∃ n, Mirrors first context v n) :
    ∃ t node later, Together first context (Fresh.node op)
      (Build.push (op.map fun v => counted first v.identity)) t node later := by
  refine ⟨_, _, _, ?_, Build.run_push _ _, context.keeps_push _, fun ordered => ?_, .push operands⟩
  · rw [Context.size_push]
    rfl
  · refine ordered.push fun operand used => ?_
    rw [Op.operands_map] at used
    obtain ⟨v, member, rfl⟩ := List.mem_map.mp used
    obtain ⟨n, mirrors⟩ := operands v member
    exact mirrors.counted_eq ▸ mirrors.contains

theorem exists_number (v : Number) : ∃ t node later,
    Together first context (Fresh.number v) (Build.number v) t node later := by
  have terminal : ∀ u ∈ (Op.number v : Op Tree).operands, ∃ n, Mirrors first context u n := nofun
  exact exists_node terminal

theorem exists_symbol (name : String) : ∃ t node later,
    Together first context (Fresh.symbol name) (Build.symbol name) t node later := by
  have terminal : ∀ u ∈ (Op.symbol name : Op Tree).operands, ∃ n, Mirrors first context u n := nofun
  exact exists_node terminal

theorem exists_operand {o : Operand Tree} {o' : Operand Node}
    (mirrors : Operand.Mirrors first context o o') : ∃ t node later,
      Together first context (Fresh.operand o) (Build.operand o') t node later := by
  cases mirrors with
  | number v => exact exists_number v
  | @built t node mirrors =>
    refine ⟨t, node, context, rfl, ?_, .refl _, id, mirrors⟩
    rw [Build.run_operand_built, if_pos mirrors.contains]

theorem exists_binary (code : Opcode) {l r : Operand Tree} {l' r' : Operand Node}
    (left : Operand.Mirrors first context l l') (right : Operand.Mirrors first context r r') :
    ∃ t node later,
      Together first context (Fresh.binary code l r) (Build.binary code l' r') t node later := by
  obtain ⟨t, n, mid, lhs⟩ := exists_operand left
  obtain ⟨u, m, late, rhs⟩ := exists_operand (right.mono lhs.keeps)
  have stays := lhs.mirrors.mono rhs.keeps
  have operands : ∀ v ∈ (Op.binary code t u).operands, ∃ k, Mirrors first late v k := by
    simp only [Op.operands, List.mem_cons, List.not_mem_nil, or_false]
    rintro v (rfl | rfl)
    · exact ⟨n, stays⟩
    · exact ⟨m, rhs.mirrors⟩
  obtain ⟨w, k, later, last⟩ := exists_node operands
  rw [Op.map, stays.counted_eq, rhs.mirrors.counted_eq] at last
  refine ⟨w, k, later, ?_, ?_, (lhs.keeps.trans rhs.keeps).trans last.keeps,
    fun ordered => last.ordered (rhs.ordered (lhs.ordered ordered)), last.mirrors⟩
  · rw [Fresh.binary, Fresh.run_bind lhs.made, Fresh.run_bind rhs.made, last.made]
  · simp only [Build.binary, Build.run_bind, lhs.built, rhs.built, last.built]

end Together

end ExprGraph

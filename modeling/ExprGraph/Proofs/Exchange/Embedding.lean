import ExprGraph.Proofs.Exchange.Nodes
import ExprGraph.Proofs.Graph.Order

set_option autoImplicit false

namespace ExprGraph

namespace Tree

structure Embeds (t : Tree) (context : Context) (place : Nat → Node) : Prop where
  op : ∀ u ∈ t.subtrees,
    context.op? (place u.identity) = some (u.op.map fun v => place v.identity)
  apart : Set.InjOn place t.identities

def Isomorphic (t u : Tree) : Prop :=
  ∃ f : Nat → Nat, Set.BijOn f t.identities u.identities ∧ u = t.relabel f

@[simp] theorem identity_relabel (f : Nat → Nat) (t : Tree) :
    (t.relabel f).identity = f t.identity := by
  cases t <;> rfl

@[simp] theorem op_relabel (f : Nat → Nat) (t : Tree) :
    (t.relabel f).op = t.op.map (relabel f) := by
  cases t <;> rfl

theorem subtrees_relabel (f : Nat → Nat) (t : Tree) :
    (t.relabel f).subtrees = t.subtrees.map (relabel f) := by
  induction t with
  | number | symbol => rfl
  | binary id code lhs rhs left right => simp [relabel, subtrees, left, right]

theorem identities_relabel (f : Nat → Nat) (t : Tree) :
    (t.relabel f).identities = f '' t.identities := by
  ext id
  simp only [identities, subtrees_relabel, Set.mem_image, Set.mem_ofPred_eq, List.mem_map]
  constructor
  · rintro ⟨_, ⟨u, below, rfl⟩, rfl⟩
    exact ⟨u.identity, ⟨u, below, rfl⟩, (identity_relabel f u).symm⟩
  · rintro ⟨_, ⟨u, below, rfl⟩, rfl⟩
    exact ⟨u.relabel f, ⟨u, below, rfl⟩, identity_relabel f u⟩

theorem isomorphic_relabel {f : Nat → Nat} {t : Tree} (apart : Set.InjOn f t.identities) :
    t.Isomorphic (t.relabel f) :=
  ⟨f, identities_relabel f t ▸ apart.bijOn_image, rfl⟩

variable {context : Context} {t u : Tree} {p q : Nat → Node}

theorem Embeds.of_subtree (embeds : t.Embeds context p) (below : u ∈ t.subtrees) :
    u.Embeds context p := by
  refine ⟨fun v inside => embeds.op v (mem_subtrees_trans below inside), ?_⟩
  refine embeds.apart.mono ?_
  rintro _ ⟨v, inside, rfl⟩
  exact ⟨v, mem_subtrees_trans below inside, rfl⟩

theorem Embeds.contains (embeds : t.Embeds context p) (below : u ∈ t.subtrees) :
    context.Contains (p u.identity) :=
  Context.contains_iff_op?.mpr ⟨_, embeds.op u below⟩

theorem Embeds.operandsOf_eq (embeds : t.Embeds context p) (below : u ∈ t.subtrees) :
    context.operandsOf (p u.identity) = u.operands.map fun v => p v.identity := by
  rw [Context.operandsOf_eq (embeds.op u below), Op.operands_map, operands]

theorem Embeds.unfolds (embeds : t.Embeds context p) :
    context.Unfolds (p t.identity) t.expr := by
  induction t with
  | number id v => exact .number (embeds.op _ (self_mem_subtrees _))
  | symbol id name => exact .symbol (embeds.op _ (self_mem_subtrees _))
  | binary id code lhs rhs left right =>
    have below (operand : Tree) (used : operand ∈ (binary id code lhs rhs).operands) :=
      embeds.of_subtree (operand_mem_subtrees used)
    exact .binary (embeds.op _ (self_mem_subtrees _)) (left (below lhs (by simp)))
      (right (below rhs (by simp)))

theorem Embeds.layers_eq (first : t.Embeds context p) (second : u.Embeds context q)
    (same : p t.identity = q u.identity) :
    (t.op.map fun v => p v.identity) = u.op.map fun v => q v.identity := by
  have found := first.op t t.self_mem_subtrees
  rw [same, second.op u u.self_mem_subtrees] at found
  exact (Option.some.inj found).symm

theorem Embeds.exists_counterpart (first : t.Embeds context p) (second : u.Embeds context q)
    (same : p t.identity = q u.identity) {v : Tree} (below : v ∈ t.subtrees) :
    ∃ w ∈ u.subtrees, q w.identity = p v.identity := by
  induction t using induction_on generalizing u with
  | step t ih =>
    rcases mem_subtrees_iff.mp below with rfl | ⟨operand, used, inside⟩
    · exact ⟨u, u.self_mem_subtrees, same.symm⟩
    have operands := congrArg Op.operands (first.layers_eq second same)
    simp only [Op.operands_map] at operands
    have member : p operand.identity ∈ u.op.operands.map fun v => q v.identity :=
      operands ▸ List.mem_map.mpr ⟨operand, used, rfl⟩
    obtain ⟨other, otherUsed, pair⟩ := List.mem_map.mp member
    have otherBelow := operand_mem_subtrees otherUsed
    obtain ⟨w, found, place⟩ := ih operand used (first.of_subtree (operand_mem_subtrees used))
      (second.of_subtree otherBelow) pair.symm inside
    exact ⟨w, mem_subtrees_trans otherBelow found, place⟩

noncomputable def rename (u : Tree) (q p : Nat → Node) (id : Nat) : Nat :=
  Function.invFunOn q u.identities (p id)

theorem Embeds.eq_relabel (first : t.Embeds context p) (second : u.Embeds context q) {whole : Tree}
    (wholeEmbeds : whole.Embeds context q) (inside : u ∈ whole.subtrees)
    (same : p t.identity = q u.identity) : u = t.relabel (whole.rename q p) := by
  induction t using induction_on generalizing u with
  | step t ih =>
    have back : whole.rename q p t.identity = u.identity := by
      rw [rename, same]
      exact wholeEmbeds.apart.leftInvOn_invFunOn ⟨u, inside, rfl⟩
    have ops : t.op.map (relabel (whole.rename q p)) = u.op := by
      refine Op.map_eq_of_map_eq_map (first.layers_eq second same) fun x hx y hy pair => ?_
      have below := operand_mem_subtrees hy
      exact (ih x hx (first.of_subtree (operand_mem_subtrees hx)) (second.of_subtree below)
        (mem_subtrees_trans inside below) pair).symm
    rw [← ofOp_op u, ← ofOp_op (t.relabel _), identity_relabel, op_relabel, ops, back]

theorem Embeds.isomorphic (first : t.Embeds context p) (second : u.Embeds context q)
    (same : p t.identity = q u.identity) : t.Isomorphic u := by
  have renamed : u = t.relabel (u.rename q p) :=
    first.eq_relabel second second u.self_mem_subtrees same
  have placed (id : Nat) (known : id ∈ t.identities) : q (u.rename q p id) = p id := by
    obtain ⟨v, below, rfl⟩ := known
    obtain ⟨w, inside, pair⟩ := first.exists_counterpart second same below
    exact Function.invFunOn_eq ⟨w.identity, ⟨w, inside, rfl⟩, pair⟩
  have apart : Set.InjOn (u.rename q p) t.identities := by
    intro a ha b hb equal
    exact first.apart ha hb (by rw [← placed a ha, equal, placed b hb])
  exact renamed ▸ isomorphic_relabel apart

theorem Embeds.coherent (embeds : t.Embeds context p) : t.Coherent := by
  intro u hu v hv same
  have first := embeds.of_subtree hu
  have second := embeds.of_subtree hv
  have place : p u.identity = p v.identity := congrArg p same
  rw [first.eq_relabel second embeds hv place, ← first.eq_relabel first embeds hu rfl]

variable {met : List Tree}

theorem Embeds.mem_map_iff (embeds : t.Embeds context p) (inside : met ⊆ t.subtrees)
    (below : u ∈ t.subtrees) : p u.identity ∈ met.map (fun v => p v.identity) ↔ u ∈ met := by
  constructor
  · intro member
    obtain ⟨v, old, place⟩ := List.mem_map.mp member
    have same := embeds.apart ⟨v, inside old, rfl⟩ ⟨u, below, rfl⟩ place
    rwa [← embeds.coherent v (inside old) u below same]
  · exact fun old => List.mem_map.mpr ⟨u, old, rfl⟩

theorem Embeds.orderFrom_eq (embeds : t.Embeds context p) (ordered : context.Ordered)
    (gathered : Gathered t met) (below : u ∈ t.subtrees) :
    context.orderFrom (met.map fun v => p v.identity) (p u.identity) =
      (meetFrom met u).map fun v => p v.identity := by
  induction u using induction_on generalizing met with
  | step u ih =>
    have all (us : List Tree) (used : us ⊆ u.operands) (met : List Tree)
        (gathered : Gathered t met) :
        context.orderAll (met.map fun v => p v.identity) (us.map fun v => p v.identity) =
          (meetAll met us).map fun v => p v.identity := by
      induction us generalizing met with
      | nil => rfl
      | cons first rest ihRest =>
        obtain ⟨member, later⟩ := List.cons_subset.mp used
        have inside := operands_subset below member
        rw [List.map_cons, Context.orderAll_cons, ih first member gathered inside, meetAll_cons]
        exact ihRest later _ (embeds.coherent.gathered_meetFrom gathered inside)
    by_cases old : u ∈ met
    · rw [gathered.meetFrom_of_mem old]
      exact Context.orderFrom_of_mem ((embeds.mem_map_iff gathered.inside below).mpr old)
    · have new := mt (embeds.mem_map_iff gathered.inside below).mp old
      rw [ordered.orderFrom_eq (embeds.contains below) new, embeds.operandsOf_eq below,
        all _ (List.Subset.refl _) met gathered,
        embeds.coherent.meetFrom_of_not_mem gathered below old, List.map_append, List.map_singleton]

theorem Embeds.order_eq (embeds : t.Embeds context p) (ordered : context.Ordered) :
    context.order (p t.identity) = t.nodes.map fun v => p v.identity :=
  embeds.orderFrom_eq ordered (.nil t) t.self_mem_subtrees

end Tree

end ExprGraph

import ExprGraph.Proofs.Exchange.Export

set_option autoImplicit false

namespace ExprGraph

theorem idxOf_map_of_inj {α β : Type} [DecidableEq α] [DecidableEq β] {f : α → β} {l : List α}
    {a : α} (apart : ∀ b ∈ l, f b = f a → b = a) : (l.map f).idxOf (f a) = l.idxOf a := by
  induction l with
  | nil => rfl
  | cons b rest ih =>
    have later := ih fun c member => apart c (List.mem_cons_of_mem _ member)
    by_cases same : b = a
    · simp [same]
    · have images : f b ≠ f a := mt (apart b List.mem_cons_self) same
      rw [List.map_cons, List.idxOf_cons_ne _ images, List.idxOf_cons_ne _ same, later]

namespace Context

def normalForm (context : Context) (root : Node) : Context :=
  let order := context.order root
  ⟨(order.filterMap fun node =>
    (context.op? node).map (Op.map fun operand => ⟨order.idxOf operand⟩)).toArray⟩

end Context

namespace Tree

variable {context later : Context} {t u : Tree} {p q : Nat → Node}

theorem Embeds.mono (embeds : t.Embeds context p) (keeps : context.Keeps later) :
    t.Embeds later p :=
  ⟨fun u below => keeps _ _ (embeds.op u below), embeds.apart⟩

theorem Embeds.idxOf_order (embeds : t.Embeds context p) (ordered : context.Ordered)
    (below : u ∈ t.subtrees) :
    (context.order (p t.identity)).idxOf (p u.identity) =
      (t.nodes.map identity).idxOf u.identity := by
  rw [embeds.order_eq ordered, ← idxOf_map_of_inj (f := p), List.map_map]
  · rfl
  · intro id known same
    exact embeds.apart (embeds.coherent.mem_map_nodes.mp known) ⟨u, below, rfl⟩ same

theorem Embeds.normalForm_eq (embeds : t.Embeds context p) (ordered : context.Ordered) :
    context.normalForm (p t.identity) = extended .empty t := by
  have each : ∀ u ∈ t.nodes, (context.op? (p u.identity)).map (Op.map fun operand =>
      (⟨(context.order (p t.identity)).idxOf operand⟩ : Node)) = some (numbered 0 t.nodes u) := by
    intro u member
    have below := (embeds.coherent.mem_nodes u).mp member
    rw [embeds.op u below, Option.map_some, Op.map_map]
    refine congrArg some (Op.map_congr fun v used => ?_)
    have inside := mem_subtrees_trans below (operand_mem_subtrees used)
    simp [position, embeds.idxOf_order ordered inside]
  have ops : (context.order (p t.identity)).filterMap (fun node => (context.op? node).map
      (Op.map fun operand => (⟨(context.order (p t.identity)).idxOf operand⟩ : Node))) =
      t.nodes.map (numbered 0 t.nodes) := by
    conv_lhs => arg 2; rw [embeds.order_eq ordered]
    rw [List.filterMap_map]
    exact List.filterMap_eq_map_iff_forall_eq_some.mpr each
  simp only [Context.normalForm, ops, extended]
  simp [Context.empty, Context.size]

theorem Embeds.alone_eq (embeds : t.Embeds context p) (ordered : context.Ordered) :
    t.alone = (⟨(context.order (p t.identity)).length - 1⟩, context.normalForm (p t.identity)) := by
  have coherent := embeds.coherent
  have root := (coherent.numbered .empty).root
  have length : (context.order (p t.identity)).length = t.nodes.length := by
    rw [embeds.order_eq ordered, List.length_map]
  rw [alone, coherent.importTree_eq, embeds.normalForm_eq ordered, length]
  refine congrArg (·, _) (Node.index_inj.mp ?_)
  rw [Context.size_empty, Nat.zero_add] at root
  exact Nat.eq_sub_of_add_eq root

theorem Coherent.render_eq (coherent : t.Coherent) :
    t.render = .ok (t.expr.fold Infix.layer).text := by
  have unfolds := (coherent.embeds_import .empty).unfolds
  rw [render, alone, coherent.importTree_node]
  exact t.reachable_alone.ordered.render_eq unfolds

theorem Coherent.repr_eq (coherent : t.Coherent) :
    t.repr = .ok (t.expr.fold Context.reprLayer) := by
  have unfolds := (coherent.embeds_import .empty).unfolds
  rw [repr, alone, coherent.importTree_node]
  exact t.reachable_alone.ordered.repr_eq unfolds

end Tree

namespace Context

variable {context : Context} {root : Node}

theorem Ordered.size_normalForm (ordered : context.Ordered) (contained : context.Contains root) :
    (context.normalForm root).size = (context.order root).length := by
  obtain ⟨u, p, embeds, rfl⟩ := ordered.exists_embeds contained
  rw [embeds.normalForm_eq ordered, Tree.size_extended, embeds.order_eq ordered, List.length_map,
    size_empty, Nat.zero_add]

def roundTrip (context : Context) (root : Node) (next : Nat) : Except Error (Node × Context) :=
  Tree.alone <$> (context.exportTree root next).1

theorem Ordered.roundTrip_eq (ordered : context.Ordered) (contained : context.Contains root)
    (next : Nat) : context.roundTrip root next =
      .ok (⟨(context.normalForm root).size - 1⟩, context.normalForm root) := by
  obtain ⟨u, exported, embeds, place, _⟩ := ordered.exists_export contained next
  have alone := embeds.alone_eq ordered
  rw [place, ← ordered.size_normalForm contained] at alone
  rw [roundTrip, exported, ← alone]
  rfl

theorem Ordered.normalForm_normalForm (ordered : context.Ordered)
    (contained : context.Contains root) :
    (context.normalForm root).Ordered ∧
      (context.normalForm root).Contains ⟨(context.normalForm root).size - 1⟩ ∧
      (context.normalForm root).normalForm ⟨(context.normalForm root).size - 1⟩ =
        context.normalForm root := by
  obtain ⟨u, p, embeds, rfl⟩ := ordered.exists_embeds contained
  have alone := embeds.alone_eq ordered
  have freshOrdered := u.reachable_alone.ordered
  have fresh := embeds.coherent.embeds_import .empty
  have again := fresh.alone_eq freshOrdered
  have inside := embeds.coherent.contains_alone
  rw [← embeds.coherent.importTree_node .empty] at again
  rw [← ordered.size_normalForm contained] at alone
  change u.alone = (_, u.alone.2.normalForm u.alone.1) at again
  rw [alone] at again freshOrdered inside
  exact ⟨freshOrdered, inside, (congrArg Prod.snd again).symm⟩

structure Renumbers (f : Node → Node) (context : Context) (root : Node) (other : Context) :
    Prop where
  apart : Set.InjOn f {node | context.Reaches root node}
  op : ∀ node, context.Reaches root node → other.op? (f node) = (context.op? node).map (Op.map f)

theorem Renumbers.embeds {f : Node → Node} {other : Context} {u : Tree} {p : Nat → Node}
    (renumbers : Renumbers f context (p u.identity) other) (ordered : context.Ordered)
    (embeds : u.Embeds context p) : u.Embeds other (f ∘ p) := by
  have contained := embeds.contains u.self_mem_subtrees
  have reaches {v : Tree} (below : v ∈ u.subtrees) :
      context.Reaches (p u.identity) (p v.identity) := by
    rw [← mem_order_iff ordered contained, embeds.order_eq ordered]
    exact List.mem_map.mpr ⟨v, (embeds.coherent.mem_nodes v).mpr below, rfl⟩
  constructor
  · intro v below
    rw [Function.comp_apply, renumbers.op _ (reaches below), embeds.op v below, Option.map_some,
      Op.map_map]
    rfl
  · rintro _ ⟨v, vBelow, rfl⟩ _ ⟨w, wBelow, rfl⟩ same
    exact embeds.apart ⟨v, vBelow, rfl⟩ ⟨w, wBelow, rfl⟩
      (renumbers.apart (reaches vBelow) (reaches wBelow) same)

theorem Renumbers.contains {f : Node → Node} {other : Context}
    (renumbers : Renumbers f context root other) (contained : context.Contains root) :
    other.Contains (f root) := by
  obtain ⟨op, found⟩ := contains_iff_op?.mp contained
  refine contains_iff_op?.mpr ⟨op.map f, ?_⟩
  rw [renumbers.op root (.refl root), found, Option.map_some]

def SameGraph (context : Context) (root : Node) (other : Context) (otherRoot : Node) : Prop :=
  ∃ f : Node → Node, f root = otherRoot ∧ Renumbers f context root other

theorem SameGraph.exists_embeds {other : Context} {otherRoot : Node}
    (same : context.SameGraph root other otherRoot) (ordered : context.Ordered)
    (contained : context.Contains root) :
    ∃ (u : Tree) (p q : Nat → Node), u.Embeds context p ∧ p u.identity = root ∧
      u.Embeds other q ∧ q u.identity = otherRoot := by
  obtain ⟨f, rfl, renumbers⟩ := same
  obtain ⟨u, p, embeds, rfl⟩ := ordered.exists_embeds contained
  exact ⟨u, p, f ∘ p, embeds, rfl, renumbers.embeds ordered embeds, rfl⟩

theorem SameGraph.contains {other : Context} {otherRoot : Node}
    (same : context.SameGraph root other otherRoot) (contained : context.Contains root) :
    other.Contains otherRoot := by
  obtain ⟨f, rfl, renumbers⟩ := same
  exact renumbers.contains contained

theorem SameGraph.normalForm_eq {other : Context} {otherRoot : Node}
    (same : context.SameGraph root other otherRoot) (ordered : context.Ordered)
    (otherOrdered : other.Ordered) (contained : context.Contains root) :
    other.normalForm otherRoot = context.normalForm root := by
  obtain ⟨u, p, q, first, rfl, second, rfl⟩ := same.exists_embeds ordered contained
  rw [second.normalForm_eq otherOrdered, first.normalForm_eq ordered]

theorem SameGraph.exists_expr {other : Context} {otherRoot : Node}
    (same : context.SameGraph root other otherRoot) (ordered : context.Ordered)
    (contained : context.Contains root) :
    ∃ e, context.Unfolds root e ∧ other.Unfolds otherRoot e := by
  obtain ⟨u, p, q, first, rfl, second, rfl⟩ := same.exists_embeds ordered contained
  exact ⟨u.expr, first.unfolds, second.unfolds⟩

end Context

end ExprGraph

import ExprGraph.Proofs.Exchange.NormalForm

set_option autoImplicit false

namespace ExprGraph

variable {σ ε R : Type}

def Visitor.renumbered (f : Node → Node) (visit : Visitor σ ε R) : Visitor σ ε R :=
  fun node op results s => visit (f node) (op.map f) results s

@[simp] theorem Visitor.renumbered_id (visit : Visitor σ ε R) : visit.renumbered id = visit := by
  funext node op results s
  cases op <;> rfl

namespace Context

variable {context other : Context} {root : Node} {f : Node → Node}

theorem Renumbers.of_keeps (keeps : context.Keeps other) (ordered : context.Ordered)
    (contained : context.Contains root) : Renumbers id context root other := by
  refine ⟨Function.injective_id.injOn, fun node reaches => ?_⟩
  obtain ⟨op, found⟩ := contains_iff_op?.mp (ordered.contains_below reaches contained)
  have same : op.map id = op := by cases op <;> rfl
  rw [id_eq, keeps node op found, found, Option.map_some, same]

theorem Renumbers.order_eq (renumbers : Renumbers f context root other) (ordered : context.Ordered)
    (otherOrdered : other.Ordered) (contained : context.Contains root) :
    other.order (f root) = (context.order root).map f := by
  obtain ⟨u, p, embeds, rfl⟩ := ordered.exists_embeds contained
  have moved := (renumbers.embeds ordered embeds).order_eq otherOrdered
  rw [Function.comp_apply] at moved
  rw [moved, embeds.order_eq ordered, List.map_map]
  rfl

variable [ReportsError ε]

-- Results agree below the root, so operands are found with the same results.
theorem Renumbers.sweep_eq (renumbers : Renumbers f context root other) (visit : Visitor σ ε R)
    {nodes : List Node} (below : ∀ node ∈ nodes, context.Reaches root node)
    (known otherKnown : Node → Option R)
    (agree : ∀ node, context.Reaches root node → otherKnown (f node) = known node) (s : σ) :
    match context.sweep (visit.renumbered f) nodes known s with
    | (.ok after, s') => ∃ otherAfter, other.sweep visit (nodes.map f) otherKnown s =
        (.ok otherAfter, s') ∧ ∀ node, context.Reaches root node → otherAfter (f node) = after node
    | (.error e, s') => other.sweep visit (nodes.map f) otherKnown s = (.error e, s') := by
  induction nodes generalizing known otherKnown s with
  | nil => exact ⟨otherKnown, rfl, agree⟩
  | cons node rest ih =>
    have reaches := below node List.mem_cons_self
    have restBelow : ∀ n ∈ rest, context.Reaches root n :=
      fun n member => below n (List.mem_cons_of_mem _ member)
    have moved := renumbers.op node reaches
    cases found : context.op? node with
    | none => simp [sweep, found, moved]
    | some op =>
      rw [found, Option.map_some] at moved
      have operands : (op.map f).collect otherKnown = op.collect known := by
        rw [Op.collect_map]
        refine Op.collect_congr fun operand used => agree operand ?_
        exact reaches.operand (operandsOf_eq found ▸ used)
      cases collected : op.collect known with
      | none => simp [sweep, found, moved, operands, collected]
      | some results =>
        rw [List.map_cons, sweep_cons _ rest found collected,
          sweep_cons visit _ moved (operands.trans collected)]
        simp only [Visitor.renumbered]
        rcases visit (f node) (op.map f) results s with ⟨e | value, s'⟩
        · rfl
        · refine ih restBelow _ _ (fun n nReaches => ?_) s'
          by_cases same : n = node
          · simp [same]
          · have apart : f n ≠ f node := mt (renumbers.apart nReaches reaches) same
            rw [Function.update_of_ne apart, Function.update_of_ne same, agree n nReaches]

theorem Renumbers.traverse_eq (renumbers : Renumbers f context root other)
    (ordered : context.Ordered) (otherOrdered : other.Ordered) (contained : context.Contains root)
    (visit : Visitor σ ε R) (s : σ) :
    other.traverse visit (f root) s = context.traverse (visit.renumbered f) root s := by
  have below (node : Node) (member : node ∈ context.order root) : context.Reaches root node :=
    (mem_order_iff ordered contained node).mp member
  have swept := renumbers.sweep_eq visit below (fun _ => none) (fun _ => none) (fun _ _ => rfl) s
  have here := Context.traverse_eq ordered contained (visit.renumbered f) s
  have there := Context.traverse_eq otherOrdered (renumbers.contains contained) visit s
  rw [renumbers.order_eq ordered otherOrdered contained] at there
  rcases outcome : context.sweep (visit.renumbered f) (context.order root) (fun _ => none) s with
    ⟨e | known, s'⟩
  · simp only [outcome] at swept here
    simp only [swept] at there
    rw [here, there]
  · simp only [outcome] at swept here
    obtain ⟨otherKnown, otherSwept, agree⟩ := swept
    simp only [otherSwept] at there
    obtain ⟨result, found, done⟩ := here
    obtain ⟨otherResult, otherFound, otherDone⟩ := there
    rw [agree root (.refl root), found] at otherFound
    rw [done, otherDone, Option.some.inj otherFound]

end Context

namespace Tree

variable {context other : Context} {t : Tree} {p q : Nat → Node}

end Tree

end ExprGraph

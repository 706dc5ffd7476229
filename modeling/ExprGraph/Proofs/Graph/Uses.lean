import ExprGraph.Proofs.Graph.Order

set_option autoImplicit false

namespace ExprGraph.Context

variable {context : Context}

def demand (context : Context) (nodes : List Node) (operand : Node) : Nat :=
  (nodes.flatMap context.operandsOf).count operand

@[simp] theorem demand_nil (operand : Node) : context.demand [] operand = 0 := rfl

@[simp] theorem demand_cons (node : Node) (nodes : List Node) (operand : Node) :
    context.demand (node :: nodes) operand =
      (context.operandsOf node).count operand + context.demand nodes operand := by
  simp [demand]

theorem demand_perm {nodes others : List Node} (perm : nodes.Perm others) (operand : Node) :
    context.demand nodes operand = context.demand others operand :=
  (perm.flatMap_right _).count_eq operand

theorem demand_pos_iff {nodes : List Node} {operand : Node} :
    0 < context.demand nodes operand ↔ ∃ node ∈ nodes, operand ∈ context.operandsOf node := by
  rw [demand, List.count_pos_iff, List.mem_flatMap]

theorem count_le_demand {nodes : List Node} {node : Node} (member : node ∈ nodes)
    (operand : Node) : (context.operandsOf node).count operand ≤ context.demand nodes operand := by
  obtain ⟨earlier, later, rfl⟩ := List.append_of_mem member
  simp only [demand, List.flatMap_append, List.flatMap_cons, List.count_append]
  omega

theorem getElem?_addUses (uses : Array Nat) (operands : List Node) (node : Node) :
    (addUses uses operands)[node.index]? = uses[node.index]?.map (· + operands.count node) := by
  induction operands generalizing uses with
  | nil => simp [addUses]
  | cons operand rest ih =>
    have step := ih (uses.modify operand.index (· + 1))
    simp only [addUses, List.foldl_cons] at step ⊢
    rw [step, Array.getElem?_modify, List.count_cons]
    by_cases same : operand = node
    · subst same
      simp only [↓reduceIte, Option.map_map, beq_self_eq_true]
      congr 1
      funext n
      simp only [Function.comp_apply]
      omega
    · simp [same]

-- A count under way: the marked nodes are counted, and their operands are marked or still to be
-- looked at.
structure Counted (context : Context) (root : Node) (marked todo : List Node) (seen : Array Bool)
    (uses : Array Nat) : Prop where
  seen_size : seen.size = context.size
  uses_size : uses.size = context.size
  seen_iff : ∀ node, seen[node.index]? = some true ↔ node ∈ marked
  nodup : marked.Nodup
  below : ∀ node, node ∈ marked ∨ node ∈ todo → context.Reaches root node
  closed : ∀ node ∈ marked, ∀ operand ∈ context.operandsOf node, operand ∈ marked ∨ operand ∈ todo
  has_root : root ∈ marked ∨ root ∈ todo
  uses_eq : ∀ node, context.Contains node → uses[node.index]? = some (context.demand marked node)

theorem counted_start (root : Node) :
    context.Counted root [] [root] (Array.replicate context.size false)
      (Array.replicate context.size 0) where
  seen_size := Array.size_replicate
  uses_size := Array.size_replicate
  seen_iff := by simp [Array.getElem?_replicate]
  nodup := List.nodup_nil
  below := by simpa using Reaches.refl root
  closed := by simp
  has_root := by simp
  uses_eq := by simp [Array.getElem?_replicate, Contains]

theorem Counted.skip {root node : Node} {marked rest : List Node} {seen : Array Bool}
    {uses : Array Nat} (counted : context.Counted root marked (node :: rest) seen uses)
    (h : node ∈ marked) : context.Counted root marked rest seen uses := by
  have drop (n : Node) : n ∈ marked ∨ n ∈ node :: rest → n ∈ marked ∨ n ∈ rest := by
    rintro (old | new)
    · exact Or.inl old
    · exact (List.mem_cons.mp new).imp_left fun same => by rwa [same]
  exact { counted with
    below := fun n member => counted.below n (member.imp_right (List.mem_cons_of_mem _))
    closed := fun n member operand used => drop operand (counted.closed n member operand used)
    has_root := drop root counted.has_root }

theorem Counted.mark {root node : Node} {marked rest : List Node} {seen : Array Bool}
    {uses : Array Nat} (counted : context.Counted root marked (node :: rest) seen uses)
    (inside : node.index < seen.size) (h : node ∉ marked) :
    context.Counted root (node :: marked) (context.operandsOf node ++ rest)
      (seen.set node.index true) (addUses uses (context.operandsOf node)) := by
  have move (n : Node) : n ∈ marked ∨ n ∈ node :: rest →
      n ∈ node :: marked ∨ n ∈ context.operandsOf node ++ rest := by
    rintro (old | new)
    · exact Or.inl (List.mem_cons_of_mem _ old)
    · rcases List.mem_cons.mp new with rfl | later
      · exact Or.inl List.mem_cons_self
      · exact Or.inr (List.mem_append_right _ later)
  constructor
  case seen_size => simpa using counted.seen_size
  case uses_size => simpa using counted.uses_size
  case seen_iff =>
    intro n
    rw [Array.getElem?_set, List.mem_cons]
    by_cases same : node = n
    · simp [same]
    · simp [same, Ne.symm same, counted.seen_iff n]
  case nodup => exact List.nodup_cons.mpr ⟨h, counted.nodup⟩
  case below =>
    have top := counted.below node (by simp)
    rintro n (member | member)
    · rcases List.mem_cons.mp member with rfl | old
      · exact top
      · exact counted.below n (Or.inl old)
    · rcases List.mem_append.mp member with used | old
      · exact top.operand used
      · exact counted.below n (Or.inr (List.mem_cons_of_mem _ old))
  case closed =>
    intro n member operand used
    rcases List.mem_cons.mp member with rfl | old
    · exact Or.inr (List.mem_append_left _ used)
    · exact move operand (counted.closed n old operand used)
  case has_root => exact move root counted.has_root
  case uses_eq =>
    intro n contained
    rw [getElem?_addUses, counted.uses_eq n contained, demand_cons, Option.map_some, Nat.add_comm]

-- The order of the nodes that are still to be looked at does not matter.
theorem Counted.with_todo {root : Node} {marked todo other : List Node} {seen : Array Bool}
    {uses : Array Nat} (counted : context.Counted root marked todo seen uses)
    (same : ∀ node, node ∈ other ↔ node ∈ todo) :
    context.Counted root marked other seen uses :=
  { counted with
    below := by simpa only [same] using counted.below
    closed := by simpa only [same] using counted.closed
    has_root := by simpa only [same] using counted.has_root }

theorem Counted.perm_order {root : Node} {marked : List Node} {seen : Array Bool}
    {uses : Array Nat} (counted : context.Counted root marked [] seen uses)
    (ordered : context.Ordered) (contained : context.Contains root) :
    marked.Perm (context.order root) := by
  rw [List.perm_ext_iff_of_nodup counted.nodup (ordered.settled_order root).nodup]
  intro node
  rw [mem_order_iff ordered contained]
  constructor
  · exact fun member => counted.below node (Or.inl member)
  · intro reaches
    refine reaches.mem_of_closed (fun n member operand used => ?_) (by simpa using counted.has_root)
    simpa using counted.closed n member operand used

theorem countUsesFrom_correct (ordered : context.Ordered) {root : Node}
    (contained : context.Contains root) {marked todo : List Node} {seen : Array Bool}
    {uses : Array Nat} (counted : context.Counted root marked todo seen uses) (node : Node)
    (h : context.Contains node) :
    (context.countUsesFrom seen uses todo)[node.index]? =
      some (context.demand (context.order root) node) := by
  fun_induction countUsesFrom context seen uses todo generalizing marked with
  | case1 =>
    rw [counted.uses_eq node h, demand_perm (counted.perm_order ordered contained)]
  | case2 seen uses top rest inside met ih =>
    refine ih (counted.skip ((counted.seen_iff top).mp ?_))
    simp [inside, met]
  | case3 seen uses top rest inside unmet operands =>
    rename_i ih
    refine ih (counted.mark inside fun member => unmet ?_)
    simpa [inside] using (counted.seen_iff top).mpr member
  | case4 seen uses top rest outside ih =>
    have below := ordered.contains_below (counted.below top (by simp)) contained
    exact absurd (counted.seen_size ▸ below) outside

theorem size_countUsesFrom (seen : Array Bool) (uses : Array Nat) (todo : List Node) :
    (context.countUsesFrom seen uses todo).size = uses.size := by
  fun_induction countUsesFrom context seen uses todo with
  | case1 => rfl
  | case2 _ _ _ _ _ _ ih | case4 _ _ _ _ _ ih => exact ih
  | case3 _ _ _ _ _ _ _ ih => simpa using ih

@[simp] theorem size_countUses (root : Node) : (context.countUses root).size = context.size := by
  simp [countUses, size_countUsesFrom]

theorem Ordered.getElem?_countUses (ordered : context.Ordered) {root node : Node}
    (contained : context.Contains root) (h : context.Contains node) :
    (context.countUses root)[node.index]? = some (context.demand (context.order root) node) :=
  countUsesFrom_correct ordered contained (counted_start root) node h

end ExprGraph.Context

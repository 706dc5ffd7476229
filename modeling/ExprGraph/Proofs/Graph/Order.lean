import ExprGraph.Proofs.Graph.Below

set_option autoImplicit false

namespace ExprGraph.Context

variable {context : Context}

theorem orderFrom_of_mem {met : List Node} {node : Node} (h : node ∈ met) :
    context.orderFrom met node = met := by
  rw [orderFrom, if_pos h]

def orderAll (context : Context) (met nodes : List Node) : List Node :=
  nodes.foldl context.orderFrom met

@[simp] theorem orderAll_nil (met : List Node) : context.orderAll met [] = met := rfl

@[simp] theorem orderAll_cons (met : List Node) (node : Node) (rest : List Node) :
    context.orderAll met (node :: rest) = context.orderAll (context.orderFrom met node) rest := rfl

@[simp] theorem orderAll_append (met nodes rest : List Node) :
    context.orderAll met (nodes ++ rest) =
      context.orderAll (context.orderAll met nodes) rest := by
  simp [orderAll, List.foldl_append]

theorem Ordered.orderFrom_eq (ordered : context.Ordered) {met : List Node} {node : Node}
    (contained : context.Contains node) (h : node ∉ met) :
    context.orderFrom met node =
      context.orderAll met (context.operandsOf node) ++ [node] := by
  obtain ⟨op, found⟩ := contains_iff_op?.mp contained
  rw [orderFrom, if_neg h, operandsOf_eq found, found]
  cases op with
  | number | symbol => rfl
  | binary code lhs rhs =>
    have before := ordered node.index _ found
    have entered : lhs.index < node.index ∧ rhs.index < node.index :=
      ⟨before lhs (by simp [Op.operands]), before rhs (by simp [Op.operands])⟩
    simp [entered, Op.operands]

theorem prefix_orderFrom (met : List Node) (node : Node) :
    met <+: context.orderFrom met node := by
  fun_induction orderFrom context met node with
  | case1 | case2 => exact List.prefix_refl _
  | case3 met node _ code lhs rhs _ _ ihl ihr =>
    exact (ihl.trans ihr).trans (List.prefix_append _ _)
  | case4 | case5 => exact List.prefix_append _ _

theorem prefix_orderAll (met nodes : List Node) : met <+: context.orderAll met nodes := by
  induction nodes generalizing met with
  | nil => exact List.prefix_refl _
  | cons node rest ih => exact (prefix_orderFrom met node).trans (ih _)

theorem mem_orderAll_of_mem {met : List Node} {node : Node} (nodes : List Node) (h : node ∈ met) :
    node ∈ context.orderAll met nodes :=
  (prefix_orderAll met nodes).subset h

theorem mem_orderFrom_self {met : List Node} {node : Node} (ordered : context.Ordered)
    (contained : context.Contains node) : node ∈ context.orderFrom met node := by
  by_cases h : node ∈ met
  · rwa [orderFrom_of_mem h]
  · simp [ordered.orderFrom_eq contained h]

theorem mem_orderAll_self {met nodes : List Node} (ordered : context.Ordered)
    (contained : ∀ node ∈ nodes, context.Contains node) :
    ∀ node ∈ nodes, node ∈ context.orderAll met nodes := by
  induction nodes generalizing met with
  | nil => simp
  | cons first rest ih =>
    intro node member
    rcases List.mem_cons.mp member with rfl | later
    · exact mem_orderAll_of_mem rest (mem_orderFrom_self ordered (contained node member))
    · exact ih (fun node h => contained node (List.mem_cons_of_mem _ h)) node later

theorem reaches_of_mem_orderFrom {met : List Node} {node : Node} :
    ∀ n ∈ context.orderFrom met node, n ∈ met ∨ context.Reaches node n := by
  fun_induction orderFrom context met node with
  | case1 | case2 => exact fun n member => Or.inl member
  | case3 met node _ code lhs rhs found _ ihl ihr =>
    have operands : context.operandsOf node = [lhs, rhs] := operandsOf_eq found
    intro n member
    rcases List.mem_append.mp member with below | last
    · rcases ihr n below with fromLeft | reaches
      · exact (ihl n fromLeft).imp_right fun reaches => .step (by simp [operands]) reaches
      · exact Or.inr (.step (by simp [operands]) reaches)
    · rw [List.mem_singleton.mp last]
      exact Or.inr (.refl node)
  | case4 | case5 =>
    intro n member
    rcases List.mem_append.mp member with old | last
    · exact Or.inl old
    · rw [List.mem_singleton.mp last]
      exact Or.inr (.refl _)

theorem reaches_of_mem_orderAll {met nodes : List Node} :
    ∀ n ∈ context.orderAll met nodes, n ∈ met ∨ ∃ node ∈ nodes, context.Reaches node n := by
  induction nodes generalizing met with
  | nil => exact fun n member => Or.inl member
  | cons node rest ih =>
    intro n member
    rcases ih n member with first | ⟨later, inRest, reaches⟩
    · exact (reaches_of_mem_orderFrom n first).imp_right fun reaches =>
        ⟨node, List.mem_cons_self, reaches⟩
    · exact Or.inr ⟨later, List.mem_cons_of_mem _ inRest, reaches⟩

theorem orderAll_filter {met known : List Node} (nodes : List Node) (h : known ⊆ met) :
    context.orderAll met (nodes.filter (· ∉ known)) = context.orderAll met nodes := by
  induction nodes generalizing met with
  | nil => rfl
  | cons node rest ih =>
    have later : known ⊆ context.orderFrom met node :=
      fun n member => (prefix_orderFrom met node).subset (h member)
    by_cases old : node ∈ known
    · simpa [old, orderFrom_of_mem (h old)] using ih h
    · simpa [old] using ih later

theorem orderAll_of_subset {met nodes : List Node} (h : nodes ⊆ met) :
    context.orderAll met nodes = met := by
  rw [← orderAll_filter nodes (List.Subset.refl met)]
  have none : nodes.filter (· ∉ met) = [] := by
    simpa using fun node member => h member
  rw [none, orderAll_nil]

theorem Ordered.not_mem_orderAll_operands (ordered : context.Ordered) {met : List Node}
    {node : Node} (h : node ∉ met) :
    node ∉ context.orderAll met (context.operandsOf node) := by
  intro member
  rcases reaches_of_mem_orderAll node member with old | ⟨operand, used, reaches⟩
  · exact h old
  · exact ordered.acyclic node ⟨operand, used, reaches⟩

theorem Ordered.orderAll_operands_cons (ordered : context.Ordered) {met : List Node} {node : Node}
    (contained : context.Contains node) (h : node ∉ met) (rest : List Node) :
    context.orderAll met (context.operandsOf node ++ node :: rest) =
      context.orderAll met (node :: rest) := by
  have operands : context.operandsOf node ⊆ context.orderAll met (context.operandsOf node) :=
    mem_orderAll_self ordered fun operand used => ordered.contains_operand used
  rw [orderAll_append, orderAll_cons, orderAll_cons, ordered.orderFrom_eq contained h,
    ordered.orderFrom_eq contained (ordered.not_mem_orderAll_operands h),
    orderAll_of_subset operands]

theorem forall_split_snoc {α : Type} {l : List α} {last : α} {P : List α → α → Prop}
    (each : ∀ earlier a later, l = earlier ++ a :: later → P earlier a) (atLast : P l last) :
    ∀ earlier a later, l ++ [last] = earlier ++ a :: later → P earlier a := by
  intro earlier a later split
  rcases List.eq_nil_or_concat later with rfl | ⟨init, final, rfl⟩
  · obtain ⟨rfl, rfl⟩ := List.append_singleton_inj.mp split
    exact atLast
  · rw [List.concat_eq_append, ← List.cons_append, ← List.append_assoc] at split
    exact each earlier a init (List.append_singleton_inj.mp split).1

structure Settled (context : Context) (met : List Node) : Prop where
  nodup : met.Nodup
  before : ∀ earlier node later, met = earlier ++ node :: later →
    ∀ operand ∈ context.operandsOf node, operand ∈ earlier

theorem Settled.nil : context.Settled [] := ⟨List.nodup_nil, by simp⟩

theorem Settled.snoc {met : List Node} {node : Node} (settled : context.Settled met)
    (h : node ∉ met) (operands : ∀ operand ∈ context.operandsOf node, operand ∈ met) :
    context.Settled (met ++ [node]) := by
  refine ⟨List.nodup_append.mpr ⟨settled.nodup, by simp, ?_⟩,
    forall_split_snoc settled.before operands⟩
  rintro n member m last rfl
  exact h (List.mem_singleton.mp last ▸ member)

theorem Settled.of_append {met later : List Node} (settled : context.Settled (met ++ later)) :
    context.Settled met := by
  refine ⟨(List.nodup_append.mp settled.nodup).1, fun earlier node rest split => ?_⟩
  exact settled.before earlier node (rest ++ later) (by simp [split])

theorem Settled.closed {met : List Node} (settled : context.Settled met) {node operand : Node}
    (member : node ∈ met) (h : operand ∈ context.operandsOf node) : operand ∈ met := by
  obtain ⟨earlier, later, split⟩ := List.append_of_mem member
  rw [split]
  exact List.mem_append_left _ (settled.before earlier node later split operand h)

theorem Settled.reaches {met : List Node} (settled : context.Settled met) {node below : Node}
    (member : node ∈ met) (reaches : context.Reaches node below) : below ∈ met :=
  reaches.mem_of_closed (fun _ inside _ used => settled.closed inside used) member

theorem Ordered.settled_orderFrom (ordered : context.Ordered) {met : List Node} (node : Node)
    (settled : context.Settled met) : context.Settled (context.orderFrom met node) := by
  induction node using ordered.induction generalizing met with
  | step node ih =>
    have all (nodes : List Node) (used : nodes ⊆ context.operandsOf node) (met : List Node)
        (settled : context.Settled met) : context.Settled (context.orderAll met nodes) := by
      induction nodes generalizing met with
      | nil => exact settled
      | cons first rest ihRest =>
        have ⟨member, later⟩ := List.cons_subset.mp used
        exact ihRest later _ (ih first member settled)
    by_cases contained : context.Contains node
    · by_cases h : node ∈ met
      · rwa [orderFrom_of_mem h]
      · rw [ordered.orderFrom_eq contained h]
        exact (all _ (List.Subset.refl _) met settled).snoc (ordered.not_mem_orderAll_operands h)
          (mem_orderAll_self ordered fun operand used => ordered.contains_operand used)
    · have missing := (op?_eq_none_iff context node).mpr contained
      rw [orderFrom, missing]
      simpa using settled

theorem Ordered.settled_order (ordered : context.Ordered) (root : Node) :
    context.Settled (context.order root) :=
  ordered.settled_orderFrom root .nil

theorem mem_order_iff (ordered : context.Ordered) {root : Node} (contained : context.Contains root)
    (node : Node) : node ∈ context.order root ↔ context.Reaches root node := by
  constructor
  · intro member
    rcases reaches_of_mem_orderFrom node member with old | reaches
    · simp at old
    · exact reaches
  · intro reaches
    exact (ordered.settled_order root).reaches (mem_orderFrom_self ordered contained) reaches

theorem order_eq (ordered : context.Ordered) {root : Node} (contained : context.Contains root) :
    context.order root = context.orderAll [] (context.operandsOf root) ++ [root] :=
  ordered.orderFrom_eq contained (by simp)

end ExprGraph.Context

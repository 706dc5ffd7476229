import ExprGraph.Context.Recursion

set_option autoImplicit false

namespace ExprGraph.Context

variable {context : Context}

theorem contains_iff_op? {node : Node} :
    context.Contains node ↔ ∃ op, context.op? node = some op := by
  rw [← Option.ne_none_iff_exists', ne_eq, op?_eq_none_iff, Decidable.not_not]

theorem Unfolds.contains {node : Node} {e : Expr} (unfolds : context.Unfolds node e) :
    context.Contains node := by
  cases unfolds with
  | number found | symbol found | binary found => exact contains_iff_op?.mpr ⟨_, found⟩

theorem operandsOf_eq {node : Node} {op : Op Node} (h : context.op? node = some op) :
    context.operandsOf node = op.operands := by
  simp [operandsOf, h]

theorem contains_of_mem_operandsOf {node operand : Node} (h : operand ∈ context.operandsOf node) :
    context.Contains node := by
  rw [contains_iff_op?]
  cases found : context.op? node with
  | none => simp [operandsOf, found] at h
  | some op => exact ⟨op, rfl⟩

theorem Ordered.index_lt (ordered : context.Ordered) {node operand : Node}
    (h : operand ∈ context.operandsOf node) : operand.index < node.index := by
  obtain ⟨op, found⟩ := contains_iff_op?.mp (contains_of_mem_operandsOf h)
  rw [operandsOf_eq found] at h
  exact ordered node.index op found operand h

theorem Ordered.contains_operand (ordered : context.Ordered) {node operand : Node}
    (h : operand ∈ context.operandsOf node) : context.Contains operand :=
  Nat.lt_trans (ordered.index_lt h) (contains_of_mem_operandsOf h)

theorem Ordered.induction (ordered : context.Ordered) {motive : Node → Prop}
    (step : ∀ node, (∀ operand ∈ context.operandsOf node, motive operand) → motive node)
    (node : Node) : motive node := by
  induction h : node.index using Nat.strongRecOn generalizing node with
  | ind n ih =>
    subst h
    exact step node fun operand member => ih _ (ordered.index_lt member) operand rfl

theorem Reaches.trans {a b c : Node} (first : context.Reaches a b) (second : context.Reaches b c) :
    context.Reaches a c := by
  induction first with
  | refl => exact second
  | step member _ ih => exact .step member (ih second)

theorem Reaches.operand {node user operand : Node} (reaches : context.Reaches node user)
    (member : operand ∈ context.operandsOf user) : context.Reaches node operand :=
  reaches.trans (.step member (.refl operand))

theorem Reaches.mem_of_closed {nodes : List Node} {node below : Node}
    (reaches : context.Reaches node below)
    (closed : ∀ n ∈ nodes, ∀ operand ∈ context.operandsOf n, operand ∈ nodes)
    (member : node ∈ nodes) : below ∈ nodes := by
  induction reaches with
  | refl => exact member
  | step used _ ih => exact ih (closed _ member _ used)

theorem Ordered.index_le (ordered : context.Ordered) {node below : Node}
    (reaches : context.Reaches node below) : below.index ≤ node.index := by
  induction reaches with
  | refl => exact Nat.le_refl _
  | step member _ ih => exact Nat.le_of_lt (Nat.lt_of_le_of_lt ih (ordered.index_lt member))

theorem Ordered.contains_below (ordered : context.Ordered) {node below : Node}
    (reaches : context.Reaches node below) (contained : context.Contains node) :
    context.Contains below :=
  Nat.lt_of_le_of_lt (ordered.index_le reaches) contained

def Depends (context : Context) (node below : Node) : Prop :=
  ∃ operand ∈ context.operandsOf node, context.Reaches operand below

theorem depends_operand {node operand : Node} (member : operand ∈ context.operandsOf node) :
    context.Depends node operand :=
  ⟨operand, member, .refl operand⟩

theorem Depends.operand {node user operand : Node} (depends : context.Depends node user)
    (member : operand ∈ context.operandsOf user) : context.Depends node operand := by
  obtain ⟨first, used, reaches⟩ := depends
  exact ⟨first, used, reaches.operand member⟩

theorem Depends.of_reaches {node user below : Node} (reaches : context.Reaches node user)
    (depends : context.Depends user below) : context.Depends node below := by
  obtain ⟨operand, member, down⟩ := depends
  cases reaches with
  | refl => exact ⟨operand, member, down⟩
  | step used rest => exact ⟨_, used, (rest.operand member).trans down⟩

theorem Ordered.depends_lt (ordered : context.Ordered) {node below : Node}
    (depends : context.Depends node below) : below.index < node.index := by
  obtain ⟨operand, member, reaches⟩ := depends
  exact Nat.lt_of_le_of_lt (ordered.index_le reaches) (ordered.index_lt member)

theorem Ordered.acyclic (ordered : context.Ordered) (node : Node) : ¬ context.Depends node node :=
  fun depends => Nat.lt_irrefl _ (ordered.depends_lt depends)

end ExprGraph.Context

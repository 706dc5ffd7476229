import ExprGraph.Proofs.Traversal.Checked
import ExprGraph.Proofs.Traversal.Recursion

set_option autoImplicit false

namespace ExprGraph.Checked

variable {R : Type} {context : Context}

theorem withArguments_eq {known : Node → Option R} {op : Op Node} {results : Op R}
    (collected : op.collect known = some results) :
    withArguments op results.operands = some results := by
  cases op with
  | number v | symbol s => exact collected
  | binary code lhs rhs =>
    obtain ⟨l, r, _, _, rfl⟩ := Op.collect_binary collected
    rfl

theorem repr_eq (ordered : context.Ordered) (root : Node) :
    repr context root = some (context.repr root) := by
  have same : Matches context reprVisitor
      fun _ _ results s => (.ok (Context.reprLayer results), s) := by
    intro known node op results s found collected
    simp [reprVisitor, withArguments_eq collected]
  rw [repr, traverse_eq ordered same]
  rfl

theorem exportTree_eq (ordered : context.Ordered) (root : Node) (next : Nat) :
    exportTree context root next = some (context.exportTree root next) := by
  have same : Matches context exportVisitor
      fun _ _ results next => (.ok (.ofOp next results), next + 1) := by
    intro known node op results s found collected
    simp [exportVisitor, withArguments_eq collected]
  rw [exportTree, traverse_eq ordered same]
  rfl

def binding (context : Context) (node : Node) : Nat := ((context.op? node).map Op.precedence).getD 0

def renderOver (context : Context) : Op Node → Op String → String
  | .binary code lhs rhs, .binary _ left right =>
    Infix.layerText (.binary code ⟨left, binding context lhs⟩ ⟨right, binding context rhs⟩)
  | .symbol name, _ => name
  | .number v, _ => v.render
  | .binary .., _ => ""

theorem parenthesize_eq {node : Node} (contained : context.Contains node) (text : String)
    (outer : Nat) : parenthesize context node text outer =
      some ((Infix.mk text (binding context node)).within outer) := by
  obtain ⟨op, found⟩ := Context.contains_iff_op?.mp contained
  simp [parenthesize, binding, found]

def visitLookingUp (context : Context) : Node → Op Node → Op String → Except Error String :=
  fun _ op results => .ok (renderOver context op results)

def visitInfix : Node → Op Node → Op Infix → Except Error Infix :=
  fun _ _ results => .ok (Infix.layer results)

theorem matches_render (ordered : context.Ordered) :
    Matches context (renderVisitor context) (.ofPure (visitLookingUp context)) := by
  intro known node op results s found collected
  cases op with
  | number v | symbol name => rfl
  | binary code lhs rhs =>
    have operands : context.operandsOf node = [lhs, rhs] := Context.operandsOf_eq found
    have inside (operand : Node) (used : operand ∈ [lhs, rhs]) : context.Contains operand :=
      ordered.contains_operand (operands ▸ used)
    obtain ⟨l, r, _, _, rfl⟩ := Op.collect_binary collected
    simp [renderVisitor, Visitor.ofPure, visitLookingUp, renderOver, Infix.layerText,
      Op.operands, parenthesize_eq (inside lhs (by simp)), parenthesize_eq (inside rhs (by simp))]

theorem exists_infix (ordered : context.Ordered) (node : Node) : context.Contains node →
    ∃ text : Infix, text.precedence = binding context node ∧
      context.recursion visitInfix node = .ok text ∧
      context.recursion (visitLookingUp context) node = .ok text.text := by
  induction node using ordered.induction with
  | step node ih =>
    intro contained
    obtain ⟨op, found⟩ := Context.contains_iff_op?.mp contained
    have binds : binding context node = op.precedence := by simp [binding, found]
    rw [binds]
    cases op with
    | number v =>
      rw [Context.recursion_number found, Context.recursion_number found]
      exact ⟨_, rfl, rfl, rfl⟩
    | symbol name =>
      rw [Context.recursion_symbol found, Context.recursion_symbol found]
      exact ⟨_, rfl, rfl, rfl⟩
    | binary code lhs rhs =>
      have operands : context.operandsOf node = [lhs, rhs] := Context.operandsOf_eq found
      have left : lhs ∈ context.operandsOf node := by simp [operands]
      have right : rhs ∈ context.operandsOf node := by simp [operands]
      obtain ⟨l, leftBinds, leftText, leftPlain⟩ := ih lhs left (ordered.contains_operand left)
      obtain ⟨r, rightBinds, rightText, rightPlain⟩ := ih rhs right (ordered.contains_operand right)
      rw [ordered.recursion_binary found, ordered.recursion_binary found, leftText, rightText,
        leftPlain, rightPlain]
      refine ⟨Infix.layer (.binary code l r), rfl, rfl, ?_⟩
      change Except.ok (renderOver context _ (.binary code l.text r.text)) = _
      rw [renderOver, ← leftBinds, ← rightBinds]
      rfl

theorem render_eq (ordered : context.Ordered) (root : Node) :
    render context root = some (context.render root) := by
  rw [render, traverse_eq ordered (matches_render ordered)]
  change some (context.postorder root (visitLookingUp context)) =
    some (Infix.text <$> context.postorder root visitInfix)
  rw [ordered.postorder_eq, ordered.postorder_eq]
  by_cases contained : context.Contains root
  · obtain ⟨text, _, withBinding, plain⟩ := exists_infix ordered root contained
    rw [withBinding, plain]
    rfl
  · have missing := (context.op?_eq_none_iff root).mpr contained
    rw [Context.recursion, Context.recursion, missing]
    rfl

end ExprGraph.Checked

namespace ExprGraph

structure Context.Sound (context : Context) : Prop where
  before : ∀ (i : Nat) (code : Opcode) (lhs rhs : Node),
    context.ops[i]? = some (.binary code lhs rhs) → lhs.index < i ∧ rhs.index < i
  acyclic : ∀ node, ¬ context.Depends node node
  closed : ∀ root below, context.Contains root → context.Reaches root below →
    context.Contains below
  countUses : ∀ root, context.Contains root →
    Checked.countUses context root = some (context.countUses root)
  traverse : ∀ {σ ε R : Type} [ReportsError ε] (visit : Visitor σ ε R) (root : Node) (s : σ),
    Checked.traverse context (fun node op results s => some (visit node op results s)) root s =
      some (context.traverse visit root s)
  render : ∀ root, Checked.render context root = some (context.render root)
  repr : ∀ root, Checked.repr context root = some (context.repr root)
  exportTree : ∀ root next,
    Checked.exportTree context root next = some (context.exportTree root next)
  importTree : ∀ t, context.importTree? t = some (context.importTree t)

theorem Context.Ordered.sound {context : Context} (ordered : context.Ordered) :
    context.Sound where
  before i code lhs rhs found := by
    have before := ordered i _ found
    exact ⟨before lhs (by simp [Op.operands]), before rhs (by simp [Op.operands])⟩
  acyclic := ordered.acyclic
  closed _ _ contained reaches := ordered.contains_below reaches contained
  countUses _ contained := Checked.countUses_eq ordered contained
  traverse visit root s := Checked.traverse_eq ordered (Checked.matches_some context visit) root s
  render := Checked.render_eq ordered
  repr := Checked.repr_eq ordered
  exportTree := Checked.exportTree_eq ordered
  importTree := context.importTree?_eq

theorem Session.run_sound (calls : List (Nat × Call)) (index : Nat) :
    (run calls index).Sound :=
  (reachable_run calls index).ordered.sound

end ExprGraph

import ExprGraph.Proofs.Arena.History
import ExprGraph.Proofs.Traversal.Sweep

set_option autoImplicit false

namespace ExprGraph

variable {ε R : Type}

def Visitor.ofPure (visit : Node → Op Node → Op R → Except ε R) : Visitor Unit ε R :=
  fun node op results _ => (visit node op results, ())

namespace Context

variable [ReportsError ε] {context : Context} {visit : Node → Op Node → Op R → Except ε R}

theorem recursion_number {node : Node} {v : Number} (found : context.op? node = some (.number v)) :
    context.recursion visit node = visit node (.number v) (.number v) := by
  rw [recursion, found]

theorem recursion_symbol {node : Node} {name : String}
    (found : context.op? node = some (.symbol name)) :
    context.recursion visit node = visit node (.symbol name) (.symbol name) := by
  rw [recursion, found]

theorem Ordered.recursion_binary (ordered : context.Ordered) {node lhs rhs : Node} {code : Opcode}
    (found : context.op? node = some (.binary code lhs rhs)) :
    context.recursion visit node = (do
      let left ← context.recursion visit lhs
      let right ← context.recursion visit rhs
      visit node (.binary code lhs rhs) (.binary code left right)) := by
  have before := ordered node.index _ found
  have entered : lhs.index < node.index ∧ rhs.index < node.index :=
    ⟨before lhs (by simp [Op.operands]), before rhs (by simp [Op.operands])⟩
  rw [recursion, found]
  simp only [entered, and_self, if_true]

def Agrees (context : Context) (visit : Node → Op Node → Op R → Except ε R) (met : List Node)
    (known : Node → Option R) : Prop :=
  ∀ node ∈ met, ∃ value, known node = some value ∧ context.recursion visit node = .ok value

theorem Agrees.known_eq {met : List Node} {known : Node → Option R} {node : Node} {value : R}
    (agrees : context.Agrees visit met known) (member : node ∈ met)
    (h : context.recursion visit node = .ok value) : known node = some value := by
  obtain ⟨stored, isKnown, outcome⟩ := agrees node member
  rw [isKnown, Except.ok.inj (outcome.symm.trans h)]

theorem Agrees.snoc {met : List Node} {known : Node → Option R} {node : Node} {value : R}
    (agrees : context.Agrees visit met known) (new : node ∉ met)
    (h : context.recursion visit node = .ok value) :
    context.Agrees visit (met ++ [node]) (Function.update known node (some value)) := by
  intro n member
  rcases List.mem_append.mp member with old | last
  · have other : n ≠ node := fun same => new (same ▸ old)
    rw [Function.update_of_ne other]
    exact agrees n old
  · obtain rfl := List.mem_singleton.mp last
    exact ⟨value, by simp, h⟩

def Follows (context : Context) (visit : Node → Op Node → Op R → Except ε R)
    (outcome : Except ε R) (met nodes : List Node) (known : Node → Option R) : Prop :=
  match outcome with
  | .ok _ => ∃ after, context.sweep (Visitor.ofPure visit) nodes known () = (.ok after, ()) ∧
      context.Agrees visit (met ++ nodes) after
  | .error e => context.sweep (Visitor.ofPure visit) nodes known () = (.error e, ())

theorem Follows.bind {outcome : Except ε R} {next : R → Except ε R} {met nodes rest : List Node}
    {known : Node → Option R} (first : context.Follows visit outcome met nodes known)
    (second : ∀ value after, outcome = .ok value → context.Agrees visit (met ++ nodes) after →
      context.Follows visit (next value) (met ++ nodes) rest after) :
    context.Follows visit (outcome >>= next) met (nodes ++ rest) known := by
  cases outcome with
  | error e =>
    change context.sweep _ (nodes ++ rest) known () = _
    rw [sweep_append, first]
  | ok value =>
    obtain ⟨after, swept, agrees⟩ := first
    have last := second value after rfl agrees
    change context.Follows visit (next value) met (nodes ++ rest) known
    simpa only [Follows, sweep_append, swept, List.append_assoc] using last

theorem Agrees.visit_last {met : List Node} {known : Node → Option R} {node : Node} {op : Op Node}
    {results : Op R} (agrees : context.Agrees visit met known) (new : node ∉ met)
    (found : context.op? node = some op) (collected : op.collect known = some results)
    (h : context.recursion visit node = visit node op results) :
    context.Follows visit (visit node op results) met [node] known := by
  have swept := sweep_cons (Visitor.ofPure visit) [] found collected ()
  simp only [Visitor.ofPure] at swept
  cases outcome : visit node op results with
  | error e => simpa [Follows, outcome] using swept
  | ok value =>
    refine ⟨Function.update known node (some value), ?_, agrees.snoc new (h.trans outcome)⟩
    simpa [outcome, sweep] using swept

def Followed (context : Context) (visit : Node → Op Node → Op R → Except ε R) (node : Node) :
    Prop :=
  ∀ met later known, context.orderFrom met node = met ++ later →
    context.Agrees visit met known →
    context.Follows visit (context.recursion visit node) met later known

theorem Ordered.followed_binary (ordered : context.Ordered) {node lhs rhs : Node} {code : Opcode}
    (found : context.op? node = some (.binary code lhs rhs))
    (left : context.Followed visit lhs) (right : context.Followed visit rhs)
    {met later : List Node} {known : Node → Option R} (new : node ∉ met)
    (order : context.orderFrom met node = met ++ later)
    (agrees : context.Agrees visit met known) :
    context.Follows visit (context.recursion visit node) met later known := by
  have contained : context.Contains node := contains_iff_op?.mpr ⟨_, found⟩
  have operands : context.operandsOf node = [lhs, rhs] := operandsOf_eq found
  have inside (operand : Node) (used : operand ∈ [lhs, rhs]) : context.Contains operand :=
    ordered.contains_operand (operands ▸ used)
  obtain ⟨first, afterLeft⟩ : met <+: context.orderFrom met lhs := prefix_orderFrom met lhs
  obtain ⟨second, afterRight⟩ : met ++ first <+: context.orderFrom (met ++ first) rhs :=
    prefix_orderFrom _ rhs
  have leftMet : lhs ∈ met ++ first ++ second := by
    apply List.mem_append_left
    rw [afterLeft]
    exact mem_orderFrom_self ordered (inside lhs (by simp))
  have rightMet : rhs ∈ met ++ first ++ second := by
    rw [afterRight]
    exact mem_orderFrom_self ordered (inside rhs (by simp))
  have all : context.orderAll met (context.operandsOf node) = met ++ first ++ second := by
    rw [operands, orderAll_cons, ← afterLeft, orderAll_cons, ← afterRight, orderAll_nil]
  have newLast : node ∉ met ++ first ++ second := by
    rw [← all]
    exact ordered.not_mem_orderAll_operands new
  obtain rfl : later = first ++ (second ++ [node]) := by
    rw [ordered.orderFrom_eq contained new, all, List.append_assoc, List.append_assoc] at order
    exact (List.append_cancel_left order).symm
  rw [ordered.recursion_binary found]
  refine (left met first known afterLeft.symm agrees).bind ?_
  intro l known₁ leftOk agrees₁
  refine (right _ second known₁ afterRight.symm agrees₁).bind ?_
  intro r known₂ rightOk agrees₂
  refine agrees₂.visit_last newLast found ?_ ?_
  · simp only [Op.collect, agrees₂.known_eq leftMet leftOk, agrees₂.known_eq rightMet rightOk]
  · rw [ordered.recursion_binary found, leftOk, rightOk]
    rfl

theorem Ordered.followed (ordered : context.Ordered) (node : Node) :
    context.Contains node → context.Followed visit node := by
  induction node using ordered.induction with
  | step node ih =>
    intro contained met later known order agrees
    by_cases old : node ∈ met
    · -- The result is known already, and nothing more is passed over.
      rw [orderFrom_of_mem old] at order
      obtain rfl := List.self_eq_append_right.mp order
      obtain ⟨value, _, outcome⟩ := agrees node old
      rw [outcome]
      exact ⟨known, rfl, by simpa using agrees⟩
    obtain ⟨op, found⟩ := contains_iff_op?.mp contained
    have operands := operandsOf_eq found
    cases op with
    | number v =>
      rw [ordered.orderFrom_eq contained old, operands] at order
      obtain rfl : later = [node] := (List.append_cancel_left order).symm
      rw [recursion_number found]
      exact agrees.visit_last old found rfl (recursion_number found)
    | symbol name =>
      rw [ordered.orderFrom_eq contained old, operands] at order
      obtain rfl : later = [node] := (List.append_cancel_left order).symm
      rw [recursion_symbol found]
      exact agrees.visit_last old found rfl (recursion_symbol found)
    | binary code lhs rhs =>
      have left : lhs ∈ context.operandsOf node := by simp [operands, Op.operands]
      have right : rhs ∈ context.operandsOf node := by simp [operands, Op.operands]
      exact ordered.followed_binary found (ih lhs left (ordered.contains_operand left))
        (ih rhs right (ordered.contains_operand right)) old order agrees

theorem postorder_of_not_contains {root : Node} (missing : ¬ context.Contains root)
    (visit : Node → Op Node → Op R → Except ε R) :
    context.postorder root visit = .error (ReportsError.report .badNode) :=
  congrArg Prod.fst (traverse_of_not_contains (Visitor.ofPure visit) missing ())

theorem Ordered.postorder_eq (ordered : context.Ordered) (root : Node) :
    context.postorder root visit = context.recursion visit root := by
  by_cases contained : context.Contains root
  · have nothing : context.Agrees visit [] (fun _ => none) := by simp [Agrees]
    have follows := ordered.followed root contained [] (context.order root) _ rfl nothing
    have traversed := traverse_eq ordered contained (Visitor.ofPure visit) ()
    change (context.traverse (Visitor.ofPure visit) root ()).1 = _
    cases outcome : context.recursion visit root with
    | error e =>
      rw [outcome] at follows
      simp only [Follows] at follows
      simp only [follows] at traversed
      rw [traversed]
    | ok value =>
      rw [outcome] at follows
      obtain ⟨after, swept, agrees⟩ := follows
      simp only [swept] at traversed
      obtain ⟨result, isKnown, done⟩ := traversed
      have member : root ∈ context.order root :=
        (mem_order_iff ordered contained root).mpr (.refl root)
      have same : some result = some value :=
        isKnown.symm.trans (agrees.known_eq member outcome)
      rw [done, Option.some.inj same]
  · have missing := (op?_eq_none_iff context root).mpr contained
    rw [recursion, missing]
    exact postorder_of_not_contains contained visit

theorem Ordered.exists_recursion (ordered : context.Ordered)
    (succeeds : ∀ node op results, ∃ value, visit node op results = .ok value) (node : Node) :
    context.Contains node → ∃ value, context.recursion visit node = .ok value := by
  induction node using ordered.induction with
  | step node ih =>
    intro contained
    obtain ⟨op, found⟩ := contains_iff_op?.mp contained
    cases op with
    | number v => simpa only [recursion_number found] using succeeds node _ _
    | symbol name => simpa only [recursion_symbol found] using succeeds node _ _
    | binary code lhs rhs =>
      have operands : context.operandsOf node = [lhs, rhs] := operandsOf_eq found
      have inside (operand : Node) (used : operand ∈ context.operandsOf node) :
          ∃ value, context.recursion visit operand = .ok value :=
        ih operand used (ordered.contains_operand used)
      obtain ⟨left, leftOk⟩ := inside lhs (by simp [operands])
      obtain ⟨right, rightOk⟩ := inside rhs (by simp [operands])
      rw [ordered.recursion_binary found, leftOk, rightOk]
      exact succeeds node _ _

/-- Sharing does not show in what a fold returns, success or failure. -/
theorem postorder_eq_recursion (reachable : context.Reachable)
    (visit : Node → Op Node → Op R → Except ε R) (root : Node) :
    context.postorder root visit = context.recursion visit root ∧
      (∀ node code lhs rhs, context.op? node = some (.binary code lhs rhs) →
        context.recursion visit node = (do
          let left ← context.recursion visit lhs
          let right ← context.recursion visit rhs
          visit node (.binary code lhs rhs) (.binary code left right))) ∧
      (context.Contains root →
        (∀ node op results, ∃ value, visit node op results = .ok value) →
        ∃ value, context.postorder root visit = .ok value) := by
  have ordered := reachable.ordered
  refine ⟨ordered.postorder_eq root, fun _ _ _ _ found => ordered.recursion_binary found, ?_⟩
  intro contained succeeds
  rw [ordered.postorder_eq root]
  exact ordered.exists_recursion succeeds root contained

def countLayers : Node → Op Node → Op Nat → Except Error Nat
  | _, _, .binary _ left right => .ok (left + right + 1)
  | _, _, _ => .ok 1

theorem postorder_shared :
    shared.Reachable ∧ shared.recursion countLayers ⟨4⟩ = .ok 9 ∧
      shared.postorder ⟨4⟩ countLayers = .ok 9 := by
  have same := (postorder_eq_recursion reachable_shared countLayers ⟨4⟩).1
  have nine : shared.recursion countLayers ⟨4⟩ = .ok 9 := by
    simp [recursion, shared, op?, countLayers]
    rfl
  exact ⟨reachable_shared, nine, same.trans nine⟩

end Context

end ExprGraph

import ExprGraph.Proofs.Arena.History
import ExprGraph.Proofs.Traversal.Sweep

set_option autoImplicit false

namespace ExprGraph

variable {σ ε R : Type}

structure Visit (ε R : Type) where
  node : Node
  op : Op Node
  arguments : List R
  outcome : Except ε R

def Visitor.logged (visit : Visitor σ ε R) : Visitor (List (Visit ε R) × σ) ε R :=
  fun node op results (visits, s) =>
    match visit node op results s with
    | (outcome, s) => (outcome, visits ++ [⟨node, op, results.operands, outcome⟩], s)

def Succeeded (visits : List (Visit ε R)) : Prop :=
  ∀ v ∈ visits, ∃ value, v.outcome = .ok value

theorem Succeeded.snoc {visits : List (Visit ε R)} {last : Visit ε R} {value : R}
    (succeeded : Succeeded visits) (returned : last.outcome = .ok value) :
    Succeeded (visits ++ [last]) := by
  intro v member
  rcases List.mem_append.mp member with earlier | final
  · exact succeeded v earlier
  · rw [List.mem_singleton.mp final]
    exact ⟨value, returned⟩

def resultIn (visits : List (Visit ε R)) (node : Node) : Option R :=
  visits.findSome? fun v => if v.node = node then v.outcome.toOption else none

theorem isSome_resultIn {visits : List (Visit ε R)} (succeeded : Succeeded visits) {node : Node}
    (visited : node ∈ visits.map Visit.node) : ∃ value, resultIn visits node = some value := by
  obtain ⟨v, member, rfl⟩ := List.mem_map.mp visited
  obtain ⟨value, returned⟩ := succeeded v member
  refine Option.isSome_iff_exists.mp (List.findSome?_isSome_iff.mpr ⟨v, member, ?_⟩)
  simp [returned, Except.toOption]

theorem resultIn_snoc {visits : List (Visit ε R)} {last : Visit ε R} {value : R}
    (new : last.node ∉ visits.map Visit.node) (returned : last.outcome = .ok value) :
    resultIn (visits ++ [last]) = Function.update (resultIn visits) last.node (some value) := by
  funext node
  by_cases same : last.node = node
  · have unseen : resultIn visits node = none := by
      refine List.findSome?_eq_none_iff.mpr fun v member => if_neg ?_
      rintro found
      exact new (List.mem_map.mpr ⟨v, member, found.trans same.symm⟩)
    have final : resultIn [last] node = some value := by
      simp [resultIn, same, returned, Except.toOption]
    simp only [resultIn, List.findSome?_append] at unseen final ⊢
    rw [unseen, final, same, Function.update_self, Option.none_or]
  · simp [resultIn, same, Ne.symm same]

namespace Context

structure Recorded (context : Context) (visits : List (Visit ε R)) : Prop where
  op : ∀ v ∈ visits, context.op? v.node = some v.op
  arguments : ∀ earlier v later, visits = earlier ++ v :: later →
    v.op.operands.map (resultIn earlier) = v.arguments.map some

variable {context : Context} {root : Node}

theorem Recorded.snoc {visits : List (Visit ε R)} {last : Visit ε R}
    (recorded : context.Recorded visits) (found : context.op? last.node = some last.op)
    (arguments : last.op.operands.map (resultIn visits) = last.arguments.map some) :
    context.Recorded (visits ++ [last]) := by
  refine ⟨fun v member => ?_, forall_split_snoc recorded.arguments arguments⟩
  rcases List.mem_append.mp member with earlier | final
  · exact recorded.op v earlier
  · rwa [List.mem_singleton.mp final]

structure DepthFirst (context : Context) (root : Node) : Prop where
  again : ∀ met node, node ∈ met → context.orderFrom met node = met
  enter : ∀ met node, context.Contains node → node ∉ met →
    context.orderFrom met node =
      (context.operandsOf node).foldl context.orderFrom met ++ [node]
  once : (context.order root).Nodup
  below : ∀ node, node ∈ context.order root ↔ context.Reaches root node
  last : (context.order root).getLast? = some root

theorem Ordered.depthFirst (ordered : context.Ordered) (contained : context.Contains root) :
    context.DepthFirst root where
  again _ _ old := orderFrom_of_mem old
  enter _ _ inside new := ordered.orderFrom_eq inside new
  once := (ordered.settled_order root).nodup
  below := mem_order_iff ordered contained
  last := by rw [order_eq ordered contained, List.getLast?_concat]

structure InOrder (context : Context) (root : Node) (visits : List (Visit ε R))
    (outcome : Except ε R) : Prop where
  nodes : visits.map Visit.node <+: context.order root
  recorded : context.Recorded visits
  last : ∃ init final, visits = init ++ [final] ∧ Succeeded init ∧ final.outcome = outcome
  complete : ∀ value, outcome = .ok value → visits.map Visit.node = context.order root

theorem Ordered.inOrder_of_done (ordered : context.Ordered) (contained : context.Contains root)
    {visits : List (Visit ε R)} {value : R} (recorded : context.Recorded visits)
    (succeeded : Succeeded visits) (all : visits.map Visit.node = context.order root)
    (result : resultIn visits root = some value) : context.InOrder root visits (.ok value) := by
  refine ⟨all ▸ List.prefix_refl _, recorded, ?_, fun _ _ => all⟩
  have nodup := (ordered.settled_order root).nodup
  rw [← all] at nodup
  have order := all.trans (order_eq ordered contained)
  rcases List.eq_nil_or_concat visits with rfl | ⟨init, final, rfl⟩
  · simp at order
  rw [List.concat_eq_append] at *
  rw [List.map_append, List.map_singleton] at order nodup
  have isRoot : final.node = root := by simpa using (List.append_singleton_inj.mp order).2
  have new : final.node ∉ init.map Visit.node := fun old =>
    (List.nodup_append.mp nodup).2.2 _ old _ (List.mem_singleton_self _) rfl
  obtain ⟨last, returned⟩ := succeeded final (by simp)
  rw [resultIn_snoc new returned, isRoot, Function.update_self] at result
  refine ⟨init, final, rfl, fun v member => succeeded v (List.mem_append_left _ member), ?_⟩
  rw [returned, Option.some.inj result]

variable [ReportsError ε]

theorem sweep_logged (visit : Visitor σ ε R) (nodes : List Node) (known : Node → Option R)
    (visits : List (Visit ε R)) (s : σ) :
    ∃ later, context.sweep visit.logged nodes known (visits, s) =
      ((context.sweep visit nodes known s).1, later, (context.sweep visit nodes known s).2) := by
  induction nodes generalizing known visits s with
  | nil => exact ⟨visits, rfl⟩
  | cons node rest ih =>
    cases found : context.op? node with
    | none => exact ⟨visits, by simp [sweep, found]⟩
    | some op =>
      cases collected : op.collect known with
      | none => exact ⟨visits, by simp [sweep, found, collected]⟩
      | some results =>
        simp only [sweep_cons _ rest found collected, Visitor.logged]
        rcases visit node op results s with ⟨e | value, s'⟩
        · exact ⟨_, rfl⟩
        · exact ih _ _ _

-- The visits of a pass over a list whose nodes come after their operands.
inductive Swept (context : Context) (nodes : List Node) :
    Except ε (Node → Option R) → List (Visit ε R) → Prop where
  | done {visits : List (Visit ε R)} (recorded : context.Recorded visits)
      (succeeded : Succeeded visits) (all : visits.map Visit.node = nodes) :
      Swept context nodes (.ok (resultIn visits)) visits
  | failed {init : List (Visit ε R)} {last : Visit ε R} {e : ε}
      (recorded : context.Recorded (init ++ [last])) (succeeded : Succeeded init)
      (returned : last.outcome = .error e)
      (part : (init ++ [last]).map Visit.node <+: nodes) :
      Swept context nodes (.error e) (init ++ [last])

theorem Settled.swept (visit : Visitor σ ε R) {nodes : List Node} (visits : List (Visit ε R))
    (settled : context.Settled (visits.map Visit.node ++ nodes))
    (inside : ∀ node ∈ nodes, context.Contains node) (recorded : context.Recorded visits)
    (succeeded : Succeeded visits) (s : σ) :
    context.Swept (visits.map Visit.node ++ nodes)
      (context.sweep visit.logged nodes (resultIn visits) (visits, s)).1
      (context.sweep visit.logged nodes (resultIn visits) (visits, s)).2.1 := by
  induction nodes generalizing visits s with
  | nil => exact .done recorded succeeded (List.append_nil _).symm
  | cons node rest ih =>
    obtain ⟨op, found⟩ := contains_iff_op?.mp (inside node List.mem_cons_self)
    have visited : op.operands ⊆ visits.map Visit.node := by
      rw [← operandsOf_eq found]
      exact settled.before _ node rest rfl
    have new : node ∉ visits.map Visit.node := fun old =>
      (List.nodup_append.mp settled.nodup).2.2 node old node List.mem_cons_self rfl
    -- So no operand is missing.
    have present : op.collect (resultIn visits) ≠ none := by
      rw [ne_eq, Op.collect_eq_none_iff]
      rintro ⟨operand, used, missing⟩
      obtain ⟨value, result⟩ := isSome_resultIn succeeded (visited used)
      simp [missing] at result
    obtain ⟨results, collected⟩ := Option.ne_none_iff_exists'.mp present
    rw [sweep_cons _ rest found collected]
    simp only [Visitor.logged]
    rcases visit node op results s with ⟨e | value, s'⟩
    · refine .failed (recorded.snoc found (Op.map_operands_of_collect collected)) succeeded rfl ?_
      simp
    · have succeeds : Succeeded (visits ++ [⟨node, op, results.operands, .ok value⟩]) :=
        succeeded.snoc rfl
      have next := ih (visits ++ [⟨node, op, results.operands, .ok value⟩])
      rw [resultIn_snoc new rfl] at next
      simp only [List.map_append, List.map_cons, List.map_nil, List.append_assoc,
        List.singleton_append] at next
      exact next settled (fun n member => inside n (List.mem_cons_of_mem _ member))
        (recorded.snoc found (Op.map_operands_of_collect collected)) succeeds s'

theorem Ordered.exists_visits (ordered : context.Ordered) (contained : context.Contains root)
    (visit : Visitor σ ε R) (s : σ) :
    ∃ visits outcome s', context.traverse visit.logged root ([], s) = (outcome, visits, s') ∧
      context.traverse visit root s = (outcome, s') ∧ context.InOrder root visits outcome := by
  have plain := traverse_eq ordered contained visit s
  have logged := traverse_eq ordered contained visit.logged ([], s)
  have inside (node : Node) (member : node ∈ context.order root) : context.Contains node :=
    ordered.contains_below ((mem_order_iff ordered contained node).mp member) contained
  have swept := Settled.swept visit ([] : List (Visit ε R)) (ordered.settled_order root) inside
    ⟨nofun, by simp⟩ nofun s
  obtain ⟨visits, same⟩ := context.sweep_logged visit (context.order root) (fun _ => none) [] s
  change context.Swept (context.order root)
    (context.sweep visit.logged (context.order root) (fun _ => none) ([], s)).1
    (context.sweep visit.logged (context.order root) (fun _ => none) ([], s)).2.1 at swept
  rw [same] at swept logged
  rcases outcome : context.sweep visit (context.order root) (fun _ => none) s with ⟨e | known, s'⟩
  · simp only [outcome] at plain logged swept
    refine ⟨visits, .error e, s', logged, plain, ?_⟩
    cases swept with
    | failed recorded succeeded returned part =>
      exact ⟨part, recorded, ⟨_, _, rfl, succeeded, returned⟩, by simp⟩
  · simp only [outcome] at plain logged swept
    obtain ⟨result, found, plain⟩ := plain
    obtain ⟨again, foundAgain, logged⟩ := logged
    obtain rfl : result = again := Option.some.inj (found.symm.trans foundAgain)
    refine ⟨visits, .ok result, s', logged, plain, ?_⟩
    cases swept with
    | done recorded succeeded all =>
      exact ordered.inOrder_of_done contained recorded succeeded all found

/-- A traversal visits each node below its root once, in order, up to the first failure. -/
theorem traverse_visits_in_order (reachable : context.Reachable) (visit : Visitor σ ε R)
    (root : Node) (s : σ) :
    (¬ context.Contains root →
      context.traverse visit.logged root ([], s) =
        (.error (ReportsError.report .badNode), [], s) ∧
      context.traverse visit root s = (.error (ReportsError.report .badNode), s)) ∧
    (context.Contains root → context.DepthFirst root ∧
      ∃ visits outcome s', context.traverse visit.logged root ([], s) = (outcome, visits, s') ∧
        context.traverse visit root s = (outcome, s') ∧ context.InOrder root visits outcome) := by
  constructor
  · intro missing
    exact ⟨traverse_of_not_contains visit.logged missing _,
      traverse_of_not_contains visit missing s⟩
  · intro contained
    exact ⟨reachable.ordered.depthFirst contained,
      reachable.ordered.exists_visits contained visit s⟩

def countUntil (last : Node) : Visitor Nat Error Nat := fun node _ results s =>
  if node = last then (.error .badNode, s)
  else (.ok (results.operands.foldr (· + ·) 1), s + 1)

theorem visits_shared :
    shared.Contains ⟨4⟩ ∧ shared.order ⟨4⟩ = [⟨0⟩, ⟨1⟩, ⟨2⟩, ⟨3⟩, ⟨4⟩] ∧
      ∃ visits outcome s', shared.traverse (countUntil ⟨3⟩).logged ⟨4⟩ ([], 0) =
          (outcome, visits, s') ∧
        shared.InOrder ⟨4⟩ visits outcome := by
  have contained : shared.Contains ⟨4⟩ := by decide
  obtain ⟨_, visits, outcome, s', logged, _, inOrder⟩ :=
    (traverse_visits_in_order reachable_shared (countUntil ⟨3⟩) ⟨4⟩ 0).2 contained
  refine ⟨contained, ?_, visits, outcome, s', logged, inOrder⟩
  simp [order, orderFrom, shared, op?]

end Context

end ExprGraph

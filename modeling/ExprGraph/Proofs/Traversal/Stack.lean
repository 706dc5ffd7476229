import ExprGraph.Context.Traversal
import ExprGraph.Proofs.Graph.Order

set_option autoImplicit false

namespace ExprGraph.Traversal

inductive Entry where
  | due (node : Node)
  | waiting (node : Node)
deriving DecidableEq

def Entry.node : Entry → Node
  | .due node => node
  | .waiting node => node

def Wanted (context : Context) (root : Node) : List Entry → Prop
  | [] => True
  | entry :: under =>
    (entry.node = root ∨ ∃ user, .waiting user ∈ under ∧ entry.node ∈ context.operandsOf user) ∧
      Wanted context root under

-- The operands of a waiting node are done before its entry comes up.
def Ready (context : Context) : List Node → List Entry → Prop
  | _, [] => True
  | done, entry :: under =>
    (∀ node, entry = .waiting node → context.operandsOf node ⊆ done) ∧
      Ready context (entry.node :: done) under

structure Stack (context : Context) (root : Node) (visited : List Node) (entries : List Entry) :
    Prop where
  wanted : Wanted context root entries
  ready : Ready context visited entries
  descends : entries.Pairwise fun upper lower =>
    ∀ node, lower = .waiting node → context.Depends node upper.node
  unvisited : ∀ node, .waiting node ∈ entries → node ∉ visited

variable {context : Context} {root : Node}

theorem Wanted.of_mem {entries : List Entry} (wanted : Wanted context root entries) {entry : Entry}
    (member : entry ∈ entries) :
    entry.node = root ∨ ∃ user, .waiting user ∈ entries ∧ entry.node ∈ context.operandsOf user := by
  induction entries with
  | nil => simp at member
  | cons first under ih =>
    have weaken (h : entry.node = root ∨
        ∃ user, .waiting user ∈ under ∧ entry.node ∈ context.operandsOf user) :
        entry.node = root ∨
          ∃ user, .waiting user ∈ first :: under ∧ entry.node ∈ context.operandsOf user :=
      h.imp_right fun ⟨user, waits, used⟩ => ⟨user, List.mem_cons_of_mem _ waits, used⟩
    rcases List.mem_cons.mp member with rfl | later
    · exact weaken wanted.1
    · exact weaken (ih wanted.2 later)

theorem Wanted.due_append {under : List Entry} (wanted : Wanted context root under) {user : Node}
    (waits : .waiting user ∈ under) (operands : List Node)
    (used : operands ⊆ context.operandsOf user) :
    Wanted context root (operands.map .due ++ under) := by
  induction operands with
  | nil => exact wanted
  | cons operand rest ih =>
    obtain ⟨first, later⟩ := List.cons_subset.mp used
    exact ⟨Or.inr ⟨user, List.mem_append_right _ waits, first⟩, ih later⟩

theorem Ready.mono {done more : List Node} {entries : List Entry}
    (ready : Ready context done entries) (subset : done ⊆ more) : Ready context more entries := by
  induction entries generalizing done more with
  | nil => trivial
  | cons entry under ih =>
    exact ⟨fun node waits => List.Subset.trans (ready.1 node waits) subset,
      ih ready.2 (List.cons_subset_cons _ subset)⟩

theorem Ready.due_append {done operands : List Node} {under : List Entry}
    (ready : Ready context (operands ++ done) under) :
    Ready context done (operands.map .due ++ under) := by
  induction operands generalizing done with
  | nil => exact ready
  | cons operand rest ih =>
    refine ⟨by simp, ih (ready.mono ?_)⟩
    intro node member
    simp only [List.cons_append, List.mem_cons, List.mem_append, Entry.node] at member ⊢
    grind

theorem Stack.start : Stack context root [] [.due root] where
  wanted := ⟨Or.inl rfl, trivial⟩
  ready := ⟨by simp, trivial⟩
  descends := List.pairwise_singleton _ _
  unvisited := by simp

theorem Stack.pop {visited later : List Node} {entry : Entry} {under : List Entry}
    (stack : Stack context root visited (entry :: under)) (ordered : context.Ordered)
    (h : ∀ node, node ∈ later ↔ node ∈ visited ∨ node = entry.node) :
    Stack context root later under := by
  obtain ⟨below, descends⟩ := List.pairwise_cons.mp stack.descends
  refine ⟨stack.wanted.2, stack.ready.2.mono ?_, descends, ?_⟩
  · intro node member
    exact (h node).mpr ((List.mem_cons.mp member).symm)
  · intro node waits member
    rcases (h node).mp member with old | rfl
    · exact stack.unvisited node (List.mem_cons_of_mem _ waits) old
    · exact ordered.acyclic _ (below _ waits _ rfl)

theorem Stack.wait {visited : List Node} {node : Node} {under : List Entry}
    (stack : Stack context root visited (.due node :: under)) (h : node ∉ visited)
    {pending : List Node} (used : pending ⊆ context.operandsOf node)
    (rest : ∀ operand ∈ context.operandsOf node, operand ∈ visited ∨ operand ∈ pending) :
    Stack context root visited (pending.map .due ++ .waiting node :: under) := by
  obtain ⟨below, descends⟩ := List.pairwise_cons.mp stack.descends
  constructor
  case wanted =>
    have waiting : Wanted context root (.waiting node :: under) := stack.wanted
    exact waiting.due_append List.mem_cons_self pending used
  case ready =>
    refine Ready.due_append ⟨?_, stack.ready.2.mono ?_⟩
    · rintro n ⟨rfl⟩ operand member
      exact List.mem_append.mpr (rest operand member).symm
    · exact List.cons_subset_cons _ (List.subset_append_right _ _)
  case descends =>
    refine List.pairwise_append.mpr ⟨?_, List.pairwise_cons.mpr ⟨below, descends⟩, ?_⟩
    · exact List.pairwise_map.mpr (List.pairwise_of_forall fun _ _ _ waits => by simp at waits)
    · intro upper fromPending lower fromUnder n waits
      obtain ⟨operand, member, rfl⟩ := List.mem_map.mp fromPending
      rcases List.mem_cons.mp fromUnder with rfl | deeper
      · obtain rfl : node = n := by simpa using waits
        exact Context.depends_operand (used member)
      · exact (below lower deeper n waits).operand (used member)
  case unvisited =>
    intro n waits
    simp only [List.mem_append, List.mem_map, List.mem_cons, reduceCtorEq, and_false,
      exists_false, false_or, Entry.waiting.injEq] at waits
    rcases waits with rfl | deeper
    · exact h
    · exact stack.unvisited n (List.mem_cons_of_mem _ deeper)

theorem Stack.operands_visited {visited : List Node} {node : Node} {under : List Entry}
    (stack : Stack context root visited (.waiting node :: under)) :
    context.operandsOf node ⊆ visited :=
  stack.ready.1 node rfl

-- The steps that a stack can still take. A node that was neither visited nor put back may be put
-- back once, and then pushes itself and two operands.
def stepsLeft (context : Context) (visited : List Node) (entries : List Entry) : Nat :=
  entries.length +
    3 * context.nodes.countP fun node => node ∉ visited ∧ .waiting node ∉ entries

theorem stepsLeft_start (context : Context) (root : Node) :
    stepsLeft context [] [.due root] = stepBound context := by
  simp [stepsLeft, stepBound, Context.nodes, Nat.add_comm]

theorem stepsLeft_pop {visited later : List Node} {entry : Entry} {under : List Entry}
    (h : ∀ node, node ∈ later ↔ node ∈ visited ∨ node = entry.node) :
    stepsLeft context later under < stepsLeft context visited (entry :: under) := by
  have fewer : context.nodes.countP (fun node => node ∉ later ∧ .waiting node ∉ under) ≤
      context.nodes.countP (fun node => node ∉ visited ∧ .waiting node ∉ entry :: under) := by
    refine List.countP_mono_left fun node _ left => ?_
    simp only [h, not_or, decide_eq_true_eq, List.mem_cons] at left ⊢
    refine ⟨left.1.1, ?_, left.2⟩
    rintro rfl
    exact left.1.2 rfl
  simp only [stepsLeft, List.length_cons]
  omega

theorem countP_lt_countP {α : Type} {p q : α → Bool} {l : List α} (h : ∀ a ∈ l, p a → q a)
    {a : α} (member : a ∈ l) (hp : ¬ p a) (hq : q a) : l.countP p < l.countP q := by
  obtain ⟨before, after, rfl⟩ := List.append_of_mem member
  have first : before.countP p ≤ before.countP q :=
    List.countP_mono_left fun b inside => h b (List.mem_append_left _ inside)
  have last : after.countP p ≤ after.countP q :=
    List.countP_mono_left fun b inside =>
      h b (List.mem_append_right _ (List.mem_cons_of_mem _ inside))
  rw [List.countP_append, List.countP_append, List.countP_cons_of_neg hp,
    List.countP_cons_of_pos hq]
  omega

theorem Stack.stepsLeft_wait {visited : List Node} {node : Node} {under : List Entry}
    (stack : Stack context root visited (.due node :: under)) (ordered : context.Ordered)
    (contained : context.Contains node) (h : node ∉ visited) {pending : List Node}
    (few : pending.length ≤ 2) :
    stepsLeft context visited (pending.map .due ++ .waiting node :: under) <
      stepsLeft context visited (.due node :: under) := by
  have fresh : .waiting node ∉ under := fun waits =>
    ordered.acyclic node ((List.pairwise_cons.mp stack.descends).1 _ waits node rfl)
  have fewer : context.nodes.countP
        (fun n => n ∉ visited ∧ .waiting n ∉ pending.map .due ++ .waiting node :: under) <
      context.nodes.countP (fun n => n ∉ visited ∧ .waiting n ∉ .due node :: under) := by
    refine countP_lt_countP ?_ ((context.mem_nodes node).mpr contained) ?_ ?_
    · intro n _ left
      simp only [List.mem_append, List.mem_cons, not_or, decide_eq_true_eq] at left ⊢
      exact ⟨left.1, by simp, left.2.2.2⟩
    · simp
    · simpa using ⟨h, fresh⟩
  simp only [stepsLeft, List.length_append, List.length_map, List.length_cons]
  omega

end ExprGraph.Traversal

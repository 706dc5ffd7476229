import ExprGraph.Proofs.Arena.Growth
import ExprGraph.Proofs.Exchange.Numbering
import ExprGraph.Proofs.Traversal.Meaning

set_option autoImplicit false

namespace ExprGraph

def Tree.builder : Visitor Nat Error Tree :=
  fun _ _ op next => (.ok (.ofOp next op), next + 1)

namespace Context

variable {context : Context} {met : List Node} {next : Nat} {known : Node → Option Tree}

def Exported (context : Context) (next : Nat) (met : List Node) (known : Node → Option Tree) :
    Prop :=
  ∀ node ∈ met, ∃ u op, known node = some u ∧ u.identity = next + met.idxOf node ∧
    context.op? node = some op ∧ op.collect known = some u.op

theorem Exported.snoc (exported : context.Exported next met known) {node : Node} {op : Op Node}
    {results : Op Tree} (settled : context.Settled met) (new : node ∉ met)
    (used : op.operands ⊆ met) (found : context.op? node = some op)
    (collected : op.collect known = some results) :
    context.Exported next (met ++ [node])
      (Function.update known node (some (.ofOp (next + met.length) results))) := by
  have kept {o : Op Node} (inside : o.operands ⊆ met) (tree : Tree) :
      o.collect (Function.update known node (some tree)) = o.collect known :=
    Op.collect_congr fun operand member =>
      Function.update_of_ne (ne_of_mem_of_not_mem (inside member) new) _ _
  intro n member
  rcases List.mem_append.mp member with old | last
  · obtain ⟨u, stored, isKnown, identity, foundOld, collectedOld⟩ := exported n old
    have operands : stored.operands ⊆ met := by
      rw [← operandsOf_eq foundOld]
      exact fun operand h => settled.closed old h
    refine ⟨u, stored, ?_, ?_, foundOld, (kept operands _).trans collectedOld⟩
    · rw [Function.update_of_ne (ne_of_mem_of_not_mem old new), isKnown]
    · rw [List.idxOf_append_of_mem old, identity]
  · obtain rfl := List.mem_singleton.mp last
    refine ⟨_, op, Function.update_self .., ?_, found, (kept used _).trans ?_⟩
    · rw [Tree.identity_ofOp, List.idxOf_append_of_notMem new]
      simp
    · rw [collected, Tree.op_ofOp]

theorem Exported.exists_collected (exported : context.Exported next met known) {op : Op Node}
    (used : op.operands ⊆ met) : ∃ results, op.collect known = some results := by
  refine Option.ne_none_iff_exists'.mp fun missing => ?_
  obtain ⟨operand, member, unknown⟩ := (Op.collect_eq_none_iff known op).mp missing
  obtain ⟨u, _, isKnown, _⟩ := exported operand (used member)
  simp [unknown] at isKnown

theorem Exported.sweep (exported : context.Exported next met known) {nodes : List Node}
    (settled : context.Settled (met ++ nodes))
    (inside : ∀ node ∈ nodes, context.Contains node) :
    ∃ after, context.sweep Tree.builder nodes known (next + met.length) =
        (.ok after, next + (met ++ nodes).length) ∧
      context.Exported next (met ++ nodes) after := by
  induction nodes generalizing met known with
  | nil => exact ⟨known, by simp [Context.sweep], by simpa using exported⟩
  | cons node rest ih =>
    obtain ⟨op, found⟩ := contains_iff_op?.mp (inside node List.mem_cons_self)
    have used : op.operands ⊆ met := by
      rw [← operandsOf_eq found]
      exact settled.before met node rest rfl
    have new : node ∉ met := fun old =>
      (List.nodup_append.mp settled.nodup).2.2 node old node List.mem_cons_self rfl
    obtain ⟨results, collected⟩ := exported.exists_collected used
    have snoc := exported.snoc settled.of_append new used found collected
    rw [List.append_cons] at settled ⊢
    obtain ⟨after, swept, all⟩ := ih snoc settled fun n member =>
      inside n (List.mem_cons_of_mem _ member)
    refine ⟨after, ?_, all⟩
    rw [sweep_cons _ rest found collected, ← swept]
    simp [Tree.builder, Nat.add_assoc]

def origin (next : Nat) (met : List Node) (id : Nat) : Node := met.getD (id - next) default

theorem Exported.origin_eq (exported : context.Exported next met known) {node : Node} {u : Tree}
    (member : node ∈ met) (isKnown : known node = some u) : origin next met u.identity = node := by
  obtain ⟨v, _, same, identity, _⟩ := exported node member
  obtain rfl : u = v := Option.some.inj (isKnown.symm.trans same)
  rw [origin, identity, Nat.add_sub_cancel_left, List.getD_eq_getElem?_getD,
    List.getElem?_idxOf member, Option.getD_some]

theorem Exported.known_below (exported : context.Exported next met known)
    (settled : context.Settled met) {node : Node} {u : Tree} (member : node ∈ met)
    (isKnown : known node = some u) {v : Tree} (below : v ∈ u.subtrees) :
    ∃ n ∈ met, known n = some v := by
  induction u using Tree.induction_on generalizing node with
  | step u ih =>
    rcases Tree.mem_subtrees_iff.mp below with rfl | ⟨operand, used, inside⟩
    · exact ⟨node, member, isKnown⟩
    obtain ⟨w, op, same, _, found, collected⟩ := exported node member
    obtain rfl : u = w := Option.some.inj (isKnown.symm.trans same)
    have some_operand : some operand ∈ op.operands.map known := by
      rw [Op.map_operands_of_collect collected]
      exact List.mem_map_of_mem used
    obtain ⟨n, usedNode, operandKnown⟩ := List.mem_map.mp some_operand
    have earlier : n ∈ met := settled.closed member (operandsOf_eq found ▸ usedNode)
    exact ih operand used earlier operandKnown inside

theorem Exported.embeds (exported : context.Exported next met known)
    (settled : context.Settled met) {node : Node} {u : Tree} (member : node ∈ met)
    (isKnown : known node = some u) : u.Embeds context (origin next met) := by
  constructor
  · intro v below
    obtain ⟨n, inside, nKnown⟩ := exported.known_below settled member isKnown below
    obtain ⟨w, op, same, _, found, collected⟩ := exported n inside
    obtain rfl : v = w := Option.some.inj (nKnown.symm.trans same)
    rw [exported.origin_eq inside nKnown, found]
    refine congrArg some (Op.map_of_collect collected fun operand used x xKnown => ?_).symm
    exact exported.origin_eq (settled.closed inside (operandsOf_eq found ▸ used)) xKnown
  · rintro _ ⟨v, vBelow, rfl⟩ _ ⟨w, wBelow, rfl⟩ same
    obtain ⟨n, nInside, nKnown⟩ := exported.known_below settled member isKnown vBelow
    obtain ⟨m, mInside, mKnown⟩ := exported.known_below settled member isKnown wBelow
    rw [exported.origin_eq nInside nKnown, exported.origin_eq mInside mKnown] at same
    rw [Option.some.inj (nKnown.symm.trans (same ▸ mKnown))]

theorem Ordered.exists_export (ordered : context.Ordered) {root : Node}
    (contained : context.Contains root) (next : Nat) :
    ∃ u, context.exportTree root next = (.ok u, next + (context.order root).length) ∧
      u.Embeds context (origin next (context.order root)) ∧
      origin next (context.order root) u.identity = root ∧
      ∀ id ∈ u.identities, next ≤ id ∧ id < next + (context.order root).length := by
  have settled := ordered.settled_order root
  have member : root ∈ context.order root := mem_orderFrom_self ordered contained
  have inside (node : Node) (h : node ∈ context.order root) : context.Contains node :=
    ordered.contains_below ((mem_order_iff ordered contained node).mp h) contained
  have nothing : context.Exported next [] fun _ => none := by simp [Exported]
  obtain ⟨known, swept, exported⟩ :
      ∃ known, context.sweep Tree.builder (context.order root) (fun _ => none) next =
          (.ok known, next + (context.order root).length) ∧
        context.Exported next (context.order root) known :=
    nothing.sweep settled inside
  have traversed := traverse_eq ordered contained Tree.builder next
  simp only [swept] at traversed
  obtain ⟨u, isKnown, done⟩ := traversed
  refine ⟨u, done, exported.embeds settled member isKnown, exported.origin_eq member isKnown, ?_⟩
  rintro _ ⟨v, below, rfl⟩
  obtain ⟨n, met, vKnown⟩ := exported.known_below settled member isKnown below
  obtain ⟨w, _, same, identity, _⟩ := exported n met
  obtain rfl : v = w := Option.some.inj (vKnown.symm.trans same)
  have := List.idxOf_lt_length_of_mem met
  omega

theorem Ordered.exists_embeds (ordered : context.Ordered) {root : Node}
    (contained : context.Contains root) :
    ∃ (u : Tree) (p : Nat → Node), u.Embeds context p ∧ p u.identity = root := by
  obtain ⟨u, _, embeds, place, _⟩ := ordered.exists_export contained 0
  exact ⟨u, _, embeds, place⟩

end Context

end ExprGraph

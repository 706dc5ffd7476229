import ExprGraph.Proofs.Arena.History
import ExprGraph.Proofs.Exchange.Embedding
import ExprGraph.Proofs.Traversal.Visits
import Mathlib.Data.List.Nodup

set_option autoImplicit false

namespace ExprGraph.Tree

-- The node for an identity when these trees are added to a context of a given size.
def position (size : Nat) (met : List Tree) (id : Nat) : Node :=
  ⟨size + (met.map identity).idxOf id⟩

def numbered (size : Nat) (met : List Tree) (u : Tree) : Op Node :=
  u.op.map fun v => position size met v.identity

variable {whole t : Tree} {met : List Tree} {base : Context} {size : Nat}

@[simp] theorem index_position (id : Nat) :
    (position size met id).index = size + (met.map identity).idxOf id := rfl

theorem position_append {id : Nat} (known : id ∈ met.map identity) (later : List Tree) :
    position size (met ++ later) id = position size met id := by
  simp only [position, List.map_append, List.idxOf_append_of_mem known]

theorem position_last {id : Nat} (new : id ∉ met.map identity) (later : List Tree)
    (last : t.identity = id) : position size (met ++ t :: later) id = ⟨size + met.length⟩ := by
  simp [position, List.idxOf_append_of_notMem new, last]

theorem numbered_append (later : List Tree) (operands : t.operands ⊆ met) :
    numbered size (met ++ later) t = numbered size met t := by
  exact Op.map_congr fun u used => position_append (List.mem_map_of_mem (operands used)) later

namespace Entry

structure Holds (base : Context) (met : List Tree) (entry : Entry) : Prop where
  ops : entry.context.ops = base.ops ++ (met.map (numbered base.size met)).toArray
  seen : ∀ id, entry.seen[id]? =
    if id ∈ met.map identity then some (position base.size met id) else none

variable {entry : Entry}

theorem Holds.start (base : Context) : Holds base [] ⟨base, ∅⟩ := by
  constructor <;> simp

theorem Holds.mem_seen (holds : entry.Holds base met) (id : Nat) :
    id ∈ entry.seen ↔ id ∈ met.map identity := by
  rw [← Std.HashMap.isSome_getElem?_iff_mem, holds.seen]
  split <;> simp [*]

theorem Holds.size_eq (holds : entry.Holds base met) :
    entry.context.size = base.size + met.length := by
  simp [Context.size, holds.ops]

theorem Holds.exists_add (holds : entry.Holds base met)
    (closed : ∀ u ∈ met, u.operands ⊆ met) (operands : t.operands ⊆ met)
    (new : t.identity ∉ met.map identity) :
    ∃ later, entry.add t = some later ∧ later.Holds base (met ++ [t]) := by
  have collected : t.op.collect entry.node? = some (numbered base.size met t) := by
    rw [numbered, ← Op.collect_some]
    refine Op.collect_congr fun u used => ?_
    have known : u.identity ∈ met.map identity := List.mem_map_of_mem (operands used)
    rw [node?, holds.seen, if_pos known]
  refine ⟨⟨(entry.context.push (numbered base.size met t)).2,
      entry.seen.insert t.identity (entry.context.push (numbered base.size met t)).1⟩,
    by simp only [add, collected], ?_, ?_⟩
  · have kept : met.map (numbered base.size (met ++ [t])) = met.map (numbered base.size met) :=
      List.map_congr_left fun u member => numbered_append [t] (closed u member)
    simp [Context.push, holds.ops, kept, numbered_append [t] operands]
  · intro id
    rw [Std.HashMap.getElem?_insert, holds.seen]
    by_cases last : t.identity = id
    · rw [← last, if_pos (by simp), if_pos (by simp), position_last new [] rfl, ← holds.size_eq]
      rfl
    · have other : id ∈ (met ++ [t]).map identity ↔ id ∈ met.map identity := by
        simp [Ne.symm last]
      simp only [beq_iff_eq, if_neg last, other]
      split
      case isTrue known => rw [position_append known]
      case isFalse => rfl

end Entry

theorem Gathered.operands_subset (gathered : Gathered whole met) (member : t ∈ met) :
    t.operands ⊆ met :=
  fun _ used => gathered.closed t member _ (operand_mem_subtrees used)

def Enters (base : Context) (whole t : Tree) : Prop :=
  ∀ (met : List Tree) (entry : Entry), Gathered whole met → entry.Holds base met →
    ∃ later, (∀ rest, enter (.down t :: rest) entry = enter rest later) ∧
      later.Holds base (meetFrom met t)

theorem Coherent.exists_enter_all (coherent : whole.Coherent) {ts : List Tree}
    (below : ts ⊆ whole.subtrees) (enters : ∀ t ∈ ts, Enters base whole t) {entry : Entry}
    (gathered : Gathered whole met) (holds : entry.Holds base met) :
    ∃ later, (∀ rest, enter (ts.map .down ++ rest) entry = enter rest later) ∧
      later.Holds base (meetAll met ts) := by
  induction ts generalizing met entry with
  | nil => exact ⟨entry, fun _ => rfl, holds⟩
  | cons first others ih =>
    obtain ⟨inside, remaining⟩ := List.cons_subset.mp below
    obtain ⟨mid, entered, midHolds⟩ := enters first List.mem_cons_self met entry gathered holds
    obtain ⟨later, rest, laterHolds⟩ := ih remaining
      (fun t member => enters t (List.mem_cons_of_mem _ member))
      (coherent.gathered_meetFrom gathered inside) midHolds
    exact ⟨later, fun tasks => (entered _).trans (rest tasks), laterHolds⟩

theorem Coherent.enters (coherent : whole.Coherent) (base : Context) (t : Tree) :
    t ∈ whole.subtrees → Enters base whole t := by
  induction t using induction_on with
  | step t ih =>
    intro below met entry gathered holds
    have known := coherent.mem_identities gathered.inside below
    by_cases old : t ∈ met
    · rw [gathered.meetFrom_of_mem old]
      exact ⟨entry, fun rest => enter_known rest ((holds.mem_seen _).mpr (known.mpr old)), holds⟩
    -- What is below a new node is entered first, and then no operand of it is missing.
    have operandsBelow := operands_subset below
    obtain ⟨mid, descent, midHolds⟩ := coherent.exists_enter_all operandsBelow
      (fun operand used => ih operand used (operandsBelow used)) gathered holds
    have midGathered := coherent.gathered_meetAll gathered operandsBelow
    have new : t.identity ∉ (meetAll met t.operands).map identity :=
      mt (coherent.mem_identities midGathered.inside below).mp
        (coherent.not_mem_meetAll_operands gathered below old)
    obtain ⟨later, added, laterHolds⟩ := midHolds.exists_add
      (fun _ member => midGathered.operands_subset member)
      (coherent.operands_mem_meetAll gathered below) new
    refine ⟨later, fun rest => ?_, coherent.meetFrom_of_not_mem gathered below old ▸ laterHolds⟩
    rw [enter_down rest (mt (holds.mem_seen _).mp (mt known.mp old)), Tree.descent, descent,
      enter_up rest (mt (midHolds.mem_seen _).mp new) added]

def place (size : Nat) (t : Tree) (id : Nat) : Node := position size t.nodes id

def extended (context : Context) (t : Tree) : Context :=
  ⟨context.ops ++ (t.nodes.map (numbered context.size t.nodes)).toArray⟩

theorem Coherent.importTree?_eq (coherent : t.Coherent) (context : Context) :
    context.importTree? t = some (t.place context.size t.identity, extended context t) := by
  obtain ⟨later, entered, (holds : later.Holds context t.nodes)⟩ :=
    coherent.enters context t t.self_mem_subtrees [] ⟨context, ∅⟩ (.nil t) (.start context)
  have done : enter [.down t] ⟨context, ∅⟩ = some later := by
    rw [entered, enter]
  have root : later.node? t = some (t.place context.size t.identity) := by
    have known : t.identity ∈ t.nodes.map identity :=
      List.mem_map_of_mem ((coherent.mem_nodes t).mpr t.self_mem_subtrees)
    rw [Entry.node?, holds.seen, if_pos known]
    rfl
  have context_eq : later.context = extended context t := by
    rw [extended, ← holds.ops]
  simp [Context.importTree?, done, root, context_eq]

theorem Coherent.importTree_eq (coherent : t.Coherent) (context : Context) :
    context.importTree t = (t.place context.size t.identity, extended context t) := by
  rw [Context.importTree, coherent.importTree?_eq context, Option.getD_some]

@[simp] theorem size_extended (context : Context) (t : Tree) :
    (extended context t).size = context.size + t.nodes.length := by
  simp [extended, Context.size]

theorem Coherent.mem_map_nodes (coherent : t.Coherent) {id : Nat} :
    id ∈ t.nodes.map identity ↔ id ∈ t.identities := by
  simp [identities, coherent.mem_nodes]

theorem Coherent.embeds_extended (coherent : t.Coherent) (context : Context) :
    t.Embeds (extended context t) (t.place context.size) := by
  constructor
  · intro u below
    have member := (coherent.mem_nodes u).mpr below
    obtain ⟨i, inside, rfl⟩ := List.getElem_of_mem member
    have index : (t.nodes.map identity).idxOf t.nodes[i].identity = i := by
      have := coherent.gathered_nodes.once.idxOf_getElem i (by simpa using inside)
      rwa [List.getElem_map] at this
    simp [Context.op?, extended, place, index, Context.size, inside, numbered]
  · intro a ha b hb same
    have index : (t.nodes.map identity).idxOf a = (t.nodes.map identity).idxOf b := by
      simpa [place, position] using same
    exact (List.idxOf_inj (coherent.mem_map_nodes.mpr ha)).mp index

theorem map_idxOf_eq_range {l : List Nat} (nodup : l.Nodup) :
    l.map l.idxOf = List.range l.length := by
  refine List.ext_getElem (by simp) fun i inside _ => ?_
  simp [nodup.idxOf_getElem i (by simpa using inside)]

structure Numbered (t : Tree) (context later : Context) (place : Nat → Node) : Prop where
  kept : ∀ i < context.size, later.ops[i]? = context.ops[i]?
  size : later.size = context.size + t.nodes.length
  bijective : Set.BijOn place t.identities
    {node | context.size ≤ node.index ∧ node.index < context.size + t.nodes.length}
  op : ∀ u ∈ t.subtrees, later.op? (place u.identity) = some (u.op.map fun v => place v.identity)
  root : (place t.identity).index + 1 = context.size + t.nodes.length
  order : t.nodes.map (fun u => place u.identity) =
    (List.range t.nodes.length).map fun i => ⟨context.size + i⟩

theorem Coherent.map_place_nodes (coherent : t.Coherent) (size : Nat) :
    t.nodes.map (fun u => t.place size u.identity) =
      (List.range t.nodes.length).map fun i => ⟨size + i⟩ := by
  have positions := map_idxOf_eq_range coherent.gathered_nodes.once
  rw [List.length_map] at positions
  rw [← positions]
  simp [place, position]

theorem Coherent.bijOn_place (coherent : t.Coherent) (context : Context) :
    Set.BijOn (t.place context.size) t.identities
      {node | context.size ≤ node.index ∧ node.index < context.size + t.nodes.length} := by
  refine ⟨fun id known => ?_, (coherent.embeds_extended context).apart, ?_⟩
  · have inside := List.idxOf_lt_length_of_mem (coherent.mem_map_nodes.mpr known)
    rw [List.length_map] at inside
    simp [place, inside]
  · rintro ⟨index⟩ ⟨low, high⟩
    simp only at low high
    have member : (⟨index⟩ : Node) ∈ t.nodes.map fun u => t.place context.size u.identity := by
      rw [coherent.map_place_nodes, List.mem_map]
      refine ⟨index - context.size, List.mem_range.mpr (by omega), ?_⟩
      rw [Nat.add_sub_cancel' low]
    obtain ⟨u, met, placed⟩ := List.mem_map.mp member
    exact ⟨u.identity, ⟨u, (coherent.mem_nodes u).mp met, rfl⟩, placed⟩

theorem Coherent.numbered (coherent : t.Coherent) (context : Context) :
    t.Numbered context (extended context t) (t.place context.size) where
  kept i inside := by
    simp only [extended]
    exact Array.getElem?_append_left inside
  size := size_extended context t
  bijective := coherent.bijOn_place context
  op := (coherent.embeds_extended context).op
  root := by
    have below := coherent.gathered_meetAll (.nil t) (operands_subset t.self_mem_subtrees)
    have new : t.identity ∉ (meetAll [] t.operands).map identity :=
      mt (coherent.mem_identities below.inside t.self_mem_subtrees).mp
        (coherent.not_mem_meetAll_operands (.nil t) t.self_mem_subtrees (by simp))
    rw [place, coherent.nodes_eq_snoc, position_last new [] rfl, List.length_append]
    rfl
  order := coherent.map_place_nodes context.size

theorem reachable_alone (t : Tree) : t.alone.2.Reachable := .after (.importTree t) .empty

theorem Coherent.importTree_node (coherent : t.Coherent) (context : Context) :
    (context.importTree t).1 = t.place context.size t.identity := by
  rw [coherent.importTree_eq]

theorem Coherent.embeds_import (coherent : t.Coherent) (context : Context) :
    t.Embeds (context.importTree t).2 (t.place context.size) := by
  rw [coherent.importTree_eq]
  exact coherent.embeds_extended context

theorem Coherent.order_alone (coherent : t.Coherent) :
    t.alone.2.order t.alone.1 = (List.range t.nodes.length).map Node.mk := by
  have order := (coherent.embeds_import .empty).order_eq t.reachable_alone.ordered
  rw [coherent.map_place_nodes] at order
  rw [alone, coherent.importTree_node, order]
  simp

theorem Coherent.contains_alone (coherent : t.Coherent) : t.alone.2.Contains t.alone.1 := by
  rw [alone, coherent.importTree_node]
  exact (coherent.embeds_import .empty).contains t.self_mem_subtrees

theorem import_numbers_nodes (coherent : t.Coherent) (context : Context) :
    (∃ later place, context.importTree? t = some (place t.identity, later) ∧
      t.Numbered context later place) ∧
    t.alone.2.DepthFirst t.alone.1 ∧
    t.alone.2.order t.alone.1 = (List.range t.nodes.length).map Node.mk ∧
    ∀ {σ ε R : Type} [ReportsError ε] (visit : Visitor σ ε R) (s : σ),
      ∃ visits outcome s', t.traverse visit.logged ([], s) = (outcome, visits, s') ∧
        t.traverse visit s = (outcome, s') ∧ t.alone.2.InOrder t.alone.1 visits outcome := by
  have ordered := t.reachable_alone.ordered
  exact ⟨⟨_, _, coherent.importTree?_eq context, coherent.numbered context⟩,
    ordered.depthFirst coherent.contains_alone, coherent.order_alone,
    fun visit s => ordered.exists_visits coherent.contains_alone visit s⟩

def squareTwice : Tree :=
  let sum (a b c : Nat) := binary c .add (symbol a "x") (number b (.int 1))
  binary 9 .mul (binary 8 .mul (sum 4 2 6) (sum 4 2 6)) (sum 3 5 7)

theorem coherent_squareTwice : squareTwice.Coherent := by
  simp [Coherent, squareTwice, subtrees, identity]

theorem import_squareTwice :
    squareTwice.Coherent ∧ squareTwice.nodes.length = 8 ∧
      squareTwice.alone.2.order squareTwice.alone.1 = (List.range 8).map Node.mk ∧
      ∃ later place, Context.shared.importTree? squareTwice = some (⟨12⟩, later) ∧
        squareTwice.Numbered Context.shared later place := by
  have eight : squareTwice.nodes.length = 8 := by decide
  obtain ⟨⟨later, place, imported, numbered⟩, _, order, _⟩ :=
    import_numbers_nodes coherent_squareTwice Context.shared
  have five : Context.shared.size = 5 := rfl
  have root : place squareTwice.identity = ⟨12⟩ := by
    have last := numbered.root
    rw [eight, five] at last
    exact Node.index_inj.mp (Nat.succ.inj last)
  exact ⟨coherent_squareTwice, eight, eight ▸ order, later, place, root ▸ imported, numbered⟩

end ExprGraph.Tree

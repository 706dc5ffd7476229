import ExprGraph.Tree.Exchange

set_option autoImplicit false

namespace ExprGraph

namespace Context

variable {context : Context}

theorem contains_push {node : Node} (op : Op Node) (h : context.Contains node) :
    (context.push op).2.Contains node := by
  rw [Contains, size_push]
  exact Nat.lt_succ_of_lt h

theorem contains_push_self (op : Op Node) : (context.push op).2.Contains (context.push op).1 := by
  rw [Contains, size_push]
  exact Nat.lt_succ_self _

theorem Ordered.empty : Context.empty.Ordered := by
  intro i op found
  simp [Context.empty] at found

theorem Ordered.push (ordered : context.Ordered) {op : Op Node}
    (inside : ∀ operand ∈ op.operands, context.Contains operand) :
    (context.push op).2.Ordered := by
  intro i stored found operand used
  simp only [Context.push, Array.getElem?_push] at found
  split at found
  case isTrue last =>
    obtain rfl : op = stored := by simpa using found
    exact last ▸ inside operand used
  case isFalse => exact ordered i stored found operand used

end Context

namespace Tree

theorem enter_known {task : Task} {entry : Entry} (rest : List Task)
    (h : task.tree.identity ∈ entry.seen) : enter (task :: rest) entry = enter rest entry := by
  rw [enter.eq_def]
  simp [h]

theorem enter_down {t : Tree} {entry : Entry} (rest : List Task) (h : t.identity ∉ entry.seen) :
    enter (.down t :: rest) entry = enter (t.descent ++ .up t :: rest) entry := by
  rw [enter]
  simp [Task.tree, h]

theorem enter_up {t : Tree} {entry later : Entry} (rest : List Task) (h : t.identity ∉ entry.seen)
    (added : entry.add t = some later) : enter (.up t :: rest) entry = enter rest later := by
  rw [enter]
  simp [Task.tree, h, added]

namespace Entry

structure Sound (entry : Entry) : Prop where
  ordered : entry.context.Ordered
  inside : ∀ (id : Nat) (node : Node), entry.seen[id]? = some node → entry.context.Contains node

structure Grows (entry later : Entry) : Prop where
  seen : ∀ id, id ∈ entry.seen → id ∈ later.seen
  sound : entry.Sound → later.Sound

theorem Grows.refl (entry : Entry) : entry.Grows entry := ⟨fun _ h => h, id⟩

theorem Grows.trans {a b c : Entry} (first : a.Grows b) (second : b.Grows c) : a.Grows c :=
  ⟨fun id h => second.seen id (first.seen id h), fun sound => second.sound (first.sound sound)⟩

theorem Sound.push {entry : Entry} (sound : entry.Sound) {op : Op Node}
    (inside : ∀ operand ∈ op.operands, entry.context.Contains operand) (id : Nat) :
    Sound ⟨(entry.context.push op).2, entry.seen.insert id (entry.context.push op).1⟩ := by
  refine ⟨sound.ordered.push inside, fun key node found => ?_⟩
  rw [Std.HashMap.getElem?_insert] at found
  split at found
  case isTrue =>
    obtain rfl := Option.some.inj found
    exact Context.contains_push_self op
  case isFalse => exact Context.contains_push op (sound.inside key node found)

theorem exists_add {entry : Entry} {t : Tree} (known : ∀ u ∈ t.operands, u.identity ∈ entry.seen) :
    ∃ later, entry.add t = some later ∧ entry.Grows later ∧ t.identity ∈ later.seen := by
  have found : t.op.collect entry.node? ≠ none := by
    rw [ne_eq, Op.collect_eq_none_iff]
    rintro ⟨u, used, missing⟩
    rw [node?, getElem?_eq_none_iff] at missing
    exact missing (known u used)
  obtain ⟨op, collected⟩ := Option.ne_none_iff_exists'.mp found
  refine ⟨⟨(entry.context.push op).2, entry.seen.insert t.identity (entry.context.push op).1⟩,
    by simp only [add, collected], ⟨?_, ?_⟩, ?_⟩
  · intro id h
    simp [h]
  · intro sound
    refine sound.push (fun operand used => ?_) t.identity
    have member : some operand ∈ t.op.operands.map entry.node? := by
      rw [Op.map_operands_of_collect collected]
      exact List.mem_map_of_mem used
    obtain ⟨u, _, seen⟩ := List.mem_map.mp member
    exact sound.inside u.identity operand seen
  · simp

end Entry

theorem exists_enter_of_descent {t : Tree} {entry below : Entry}
    (descent : ∀ rest, enter (t.descent ++ rest) entry = enter rest below)
    (grows : entry.Grows below) (known : ∀ u ∈ t.operands, u.identity ∈ below.seen) :
    ∃ later, (∀ rest, enter (.down t :: rest) entry = enter rest later) ∧ entry.Grows later ∧
      t.identity ∈ later.seen := by
  by_cases old : t.identity ∈ entry.seen
  · exact ⟨entry, fun rest => enter_known rest old, .refl entry, old⟩
  by_cases met : t.identity ∈ below.seen
  · refine ⟨below, fun rest => ?_, grows, met⟩
    rw [enter_down rest old, descent, enter_known rest met]
  · obtain ⟨later, added, growsLast, seen⟩ := Entry.exists_add known
    refine ⟨later, fun rest => ?_, grows.trans growsLast, seen⟩
    rw [enter_down rest old, descent, enter_up rest met added]

theorem exists_enter (t : Tree) (entry : Entry) :
    ∃ later, (∀ rest, enter (.down t :: rest) entry = enter rest later) ∧ entry.Grows later ∧
      t.identity ∈ later.seen := by
  induction t generalizing entry with
  | number | symbol => exact exists_enter_of_descent (fun _ => rfl) (.refl entry) nofun
  | binary id code lhs rhs ihl ihr =>
    obtain ⟨first, left, growsLeft, seenLeft⟩ := ihl entry
    obtain ⟨second, right, growsRight, seenRight⟩ := ihr first
    refine exists_enter_of_descent (fun rest => ?_) (growsLeft.trans growsRight) ?_
    · exact (left _).trans (right rest)
    · simp only [operands, op, Op.operands, List.mem_cons, List.not_mem_nil, or_false]
      rintro u (rfl | rfl)
      · exact growsRight.seen _ seenLeft
      · exact seenRight

end Tree

namespace Context

variable (context : Context) (t : Tree)

theorem exists_import :
    ∃ node later, context.importTree? t = some (node, later) ∧
      (context.Ordered → later.Ordered) := by
  obtain ⟨later, entered, grows, seen⟩ := Tree.exists_enter t ⟨context, ∅⟩
  have done : Tree.enter [.down t] ⟨context, ∅⟩ = some later := by
    rw [entered, Tree.enter]
  obtain ⟨node, found⟩ : ∃ node, later.node? t = some node :=
    Option.isSome_iff_exists.mp (by simpa [Tree.Entry.node?] using seen)
  refine ⟨node, later.context, by simp [importTree?, done, found], fun ordered => ?_⟩
  exact (grows.sound ⟨ordered, by simp⟩).ordered

theorem importTree?_eq : context.importTree? t = some (context.importTree t) := by
  obtain ⟨node, later, found, _⟩ := context.exists_import t
  simp [importTree, found]

theorem Ordered.importTree {context : Context} (ordered : context.Ordered) (t : Tree) :
    (context.importTree t).2.Ordered := by
  obtain ⟨node, later, found, keeps⟩ := context.exists_import t
  simpa [Context.importTree, found] using keeps ordered

end Context

end ExprGraph

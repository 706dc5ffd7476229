import ExprGraph.Tree.Exchange
import Mathlib.Data.Set.Function

set_option autoImplicit false

namespace ExprGraph.Tree

def identities (t : Tree) : Set Nat := {id | ∃ u ∈ t.subtrees, u.identity = id}

@[simp] theorem operands_binary (id : Nat) (code : Opcode) (lhs rhs : Tree) :
    (binary id code lhs rhs).operands = [lhs, rhs] := rfl

theorem induction_on {motive : Tree → Prop} (t : Tree)
    (step : ∀ t, (∀ operand ∈ t.operands, motive operand) → motive t) : motive t := by
  induction t with
  | number | symbol => exact step _ nofun
  | binary id code lhs rhs left right =>
    refine step _ fun operand used => ?_
    simp only [operands_binary, List.mem_cons, List.not_mem_nil, or_false] at used
    rcases used with rfl | rfl
    · exact left
    · exact right

theorem mem_subtrees_iff {t u : Tree} :
    u ∈ t.subtrees ↔ u = t ∨ ∃ operand ∈ t.operands, u ∈ operand.subtrees := by
  cases t with
  | number | symbol => simp [subtrees, operands, op, Op.operands]
  | binary id code lhs rhs =>
    simp only [subtrees, operands_binary, List.mem_append, List.mem_cons, List.not_mem_nil,
      or_false, exists_eq_or_imp, exists_eq_left]
    exact or_comm

theorem self_mem_subtrees (t : Tree) : t ∈ t.subtrees := mem_subtrees_iff.mpr (Or.inl rfl)

theorem operand_mem_subtrees {t operand : Tree} (used : operand ∈ t.operands) :
    operand ∈ t.subtrees :=
  mem_subtrees_iff.mpr (Or.inr ⟨operand, used, operand.self_mem_subtrees⟩)

theorem mem_subtrees_trans {t u v : Tree} (first : u ∈ t.subtrees) (second : v ∈ u.subtrees) :
    v ∈ t.subtrees := by
  induction t using induction_on with
  | step t ih =>
    rcases mem_subtrees_iff.mp first with rfl | ⟨operand, used, below⟩
    · exact second
    · exact mem_subtrees_iff.mpr (Or.inr ⟨operand, used, ih operand used below⟩)

theorem size_lt_of_operand {t operand : Tree} (used : operand ∈ t.operands) :
    operand.size < t.size := by
  cases t with
  | number | symbol => simp [operands, op, Op.operands] at used
  | binary id code lhs rhs =>
    simp only [operands_binary, List.mem_cons, List.not_mem_nil, or_false] at used
    rcases used with rfl | rfl <;> simp only [size] <;> omega

theorem size_le_of_mem_subtrees {t u : Tree} (below : u ∈ t.subtrees) : u.size ≤ t.size := by
  induction t using induction_on with
  | step t ih =>
    rcases mem_subtrees_iff.mp below with rfl | ⟨operand, used, inside⟩
    · exact Nat.le_refl _
    · exact Nat.le_of_lt (Nat.lt_of_le_of_lt (ih operand used inside) (size_lt_of_operand used))

theorem not_mem_subtrees_operand {t operand : Tree} (used : operand ∈ t.operands) :
    t ∉ operand.subtrees := fun below =>
  Nat.lt_irrefl _ (Nat.lt_of_lt_of_le (size_lt_of_operand used) (size_le_of_mem_subtrees below))

def meet (met : List Tree) (u : Tree) : List Tree := if met.any u.same then met else met ++ [u]

def meetFrom (met : List Tree) (t : Tree) : List Tree := t.subtrees.foldl meet met

def meetAll (met : List Tree) (ts : List Tree) : List Tree := ts.foldl meetFrom met

theorem nodes_eq (t : Tree) : t.nodes = meetFrom [] t := rfl

@[simp] theorem meetAll_nil (met : List Tree) : meetAll met [] = met := rfl

@[simp] theorem meetAll_cons (met : List Tree) (t : Tree) (rest : List Tree) :
    meetAll met (t :: rest) = meetAll (meetFrom met t) rest := rfl

theorem meetFrom_eq (met : List Tree) (t : Tree) :
    meetFrom met t = meet (meetAll met t.operands) t := by
  cases t <;> simp [meetFrom, subtrees, operands, op, Op.operands]

structure Gathered (whole : Tree) (met : List Tree) : Prop where
  inside : met ⊆ whole.subtrees
  once : (met.map identity).Nodup
  closed : ∀ u ∈ met, ∀ v ∈ u.subtrees, v ∈ met

variable {whole : Tree} {met : List Tree}

theorem Gathered.nil (whole : Tree) : Gathered whole [] := ⟨by simp, by simp, by simp⟩

theorem Coherent.mem_identities (coherent : whole.Coherent) (inside : met ⊆ whole.subtrees)
    {u : Tree} (hu : u ∈ whole.subtrees) : u.identity ∈ met.map identity ↔ u ∈ met := by
  constructor
  · intro known
    obtain ⟨v, member, same⟩ := List.mem_map.mp known
    rwa [← coherent v (inside member) u hu same]
  · exact List.mem_map_of_mem

theorem meet_of_mem {u : Tree} (old : u ∈ met) : meet met u = met :=
  if_pos (List.any_eq_true.mpr ⟨u, old, by simp [same]⟩)

theorem Coherent.meet_of_not_mem (coherent : whole.Coherent) (inside : met ⊆ whole.subtrees)
    {u : Tree} (hu : u ∈ whole.subtrees) (new : u ∉ met) : meet met u = met ++ [u] := by
  refine if_neg fun known => new ?_
  obtain ⟨v, member, same⟩ := List.any_eq_true.mp known
  rwa [coherent u hu v (inside member) (by simpa [Tree.same] using same)]

theorem Coherent.mem_foldl_meet (coherent : whole.Coherent) {ts : List Tree}
    (inside : met ⊆ whole.subtrees) (below : ts ⊆ whole.subtrees) (u : Tree) :
    u ∈ ts.foldl meet met ↔ u ∈ met ∨ u ∈ ts := by
  induction ts generalizing met with
  | nil => simp
  | cons t rest ih =>
    obtain ⟨first, later⟩ := List.cons_subset.mp below
    rw [List.foldl_cons]
    by_cases old : t ∈ met
    · rw [meet_of_mem old, ih inside later, List.mem_cons]
      constructor
      · exact Or.imp_right Or.inr
      · rintro (h | rfl | h)
        · exact Or.inl h
        · exact Or.inl old
        · exact Or.inr h
    · have next : met ++ [t] ⊆ whole.subtrees :=
        List.append_subset.mpr ⟨inside, by simpa using first⟩
      rw [coherent.meet_of_not_mem inside first old, ih next later]
      simp [or_assoc]

theorem Coherent.mem_meetFrom (coherent : whole.Coherent) (inside : met ⊆ whole.subtrees) {t : Tree}
    (ht : t ∈ whole.subtrees) (u : Tree) :
    u ∈ meetFrom met t ↔ u ∈ met ∨ u ∈ t.subtrees :=
  coherent.mem_foldl_meet inside (fun _ below => mem_subtrees_trans ht below) u

theorem Gathered.meetFrom_of_mem (gathered : Gathered whole met) {t : Tree} (old : t ∈ met) :
    meetFrom met t = met := by
  have known : t.subtrees ⊆ met := gathered.closed t old
  rw [meetFrom]
  generalize t.subtrees = ts at known
  induction ts with
  | nil => rfl
  | cons u rest ih =>
    obtain ⟨first, later⟩ := List.cons_subset.mp known
    rw [List.foldl_cons, meet_of_mem first]
    exact ih later

theorem Coherent.gathered_foldl (coherent : whole.Coherent) {ts : List Tree}
    (inside : met ⊆ whole.subtrees) (once : (met.map identity).Nodup)
    (below : ts ⊆ whole.subtrees) :
    ts.foldl meet met ⊆ whole.subtrees ∧ ((ts.foldl meet met).map identity).Nodup := by
  induction ts generalizing met with
  | nil => exact ⟨inside, once⟩
  | cons t rest ih =>
    obtain ⟨first, later⟩ := List.cons_subset.mp below
    rw [List.foldl_cons]
    by_cases old : t ∈ met
    · rw [meet_of_mem old]
      exact ih inside once later
    · rw [coherent.meet_of_not_mem inside first old]
      refine ih (List.append_subset.mpr ⟨inside, by simpa using first⟩) ?_ later
      rw [List.map_append, List.nodup_append]
      refine ⟨once, by simp, ?_⟩
      rintro id known _ last rfl
      rw [List.map_singleton, List.mem_singleton] at last
      exact old ((coherent.mem_identities inside first).mp (last ▸ known))

theorem Coherent.gathered_meetFrom (coherent : whole.Coherent) (gathered : Gathered whole met)
    {t : Tree} (ht : t ∈ whole.subtrees) : Gathered whole (meetFrom met t) := by
  obtain ⟨inside, once⟩ := coherent.gathered_foldl gathered.inside gathered.once
    fun _ below => mem_subtrees_trans ht below
  refine ⟨inside, once, fun u member v below => ?_⟩
  rw [coherent.mem_meetFrom gathered.inside ht] at member ⊢
  rcases member with old | new
  · exact Or.inl (gathered.closed u old v below)
  · exact Or.inr (mem_subtrees_trans new below)

theorem Coherent.gathered_meetAll (coherent : whole.Coherent) (gathered : Gathered whole met)
    {ts : List Tree} (below : ts ⊆ whole.subtrees) : Gathered whole (meetAll met ts) := by
  induction ts generalizing met with
  | nil => exact gathered
  | cons t rest ih =>
    obtain ⟨first, later⟩ := List.cons_subset.mp below
    exact ih (coherent.gathered_meetFrom gathered first) later

theorem Coherent.mem_meetAll (coherent : whole.Coherent) (gathered : Gathered whole met)
    {ts : List Tree} (below : ts ⊆ whole.subtrees) (u : Tree) :
    u ∈ meetAll met ts ↔ u ∈ met ∨ ∃ t ∈ ts, u ∈ t.subtrees := by
  induction ts generalizing met with
  | nil => simp
  | cons t rest ih =>
    obtain ⟨first, later⟩ := List.cons_subset.mp below
    rw [meetAll_cons, ih (coherent.gathered_meetFrom gathered first) later,
      coherent.mem_meetFrom gathered.inside first]
    simp [or_assoc]

theorem operands_subset {t : Tree} (ht : t ∈ whole.subtrees) : t.operands ⊆ whole.subtrees :=
  fun _ used => mem_subtrees_trans ht (operand_mem_subtrees used)

theorem Coherent.not_mem_meetAll_operands (coherent : whole.Coherent)
    (gathered : Gathered whole met) {t : Tree} (ht : t ∈ whole.subtrees) (new : t ∉ met) :
    t ∉ meetAll met t.operands := by
  rw [coherent.mem_meetAll gathered (operands_subset ht)]
  rintro (old | ⟨operand, used, below⟩)
  · exact new old
  · exact not_mem_subtrees_operand used below

theorem Coherent.operands_mem_meetAll (coherent : whole.Coherent) (gathered : Gathered whole met)
    {t : Tree} (ht : t ∈ whole.subtrees) : t.operands ⊆ meetAll met t.operands :=
  fun operand used => (coherent.mem_meetAll gathered (operands_subset ht) operand).mpr
    (Or.inr ⟨operand, used, operand.self_mem_subtrees⟩)

-- A node that was not met yet comes right after what is below it.
theorem Coherent.meetFrom_of_not_mem (coherent : whole.Coherent) (gathered : Gathered whole met)
    {t : Tree} (ht : t ∈ whole.subtrees) (new : t ∉ met) :
    meetFrom met t = meetAll met t.operands ++ [t] := by
  have below := coherent.gathered_meetAll gathered (operands_subset ht)
  rw [meetFrom_eq, coherent.meet_of_not_mem below.inside ht
    (coherent.not_mem_meetAll_operands gathered ht new)]

theorem Coherent.gathered_nodes (coherent : whole.Coherent) : Gathered whole whole.nodes :=
  coherent.gathered_meetFrom (.nil whole) whole.self_mem_subtrees

theorem Coherent.mem_nodes (coherent : whole.Coherent) (u : Tree) :
    u ∈ whole.nodes ↔ u ∈ whole.subtrees := by
  rw [nodes_eq, coherent.mem_meetFrom (by simp) whole.self_mem_subtrees]
  simp

theorem Coherent.nodes_eq_snoc (coherent : whole.Coherent) :
    whole.nodes = meetAll [] whole.operands ++ [whole] :=
  coherent.meetFrom_of_not_mem (.nil whole) whole.self_mem_subtrees (by simp)

end ExprGraph.Tree

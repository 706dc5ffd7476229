import ExprGraph.Proofs.Construction.Agreement
import ExprGraph.Proofs.Number.Equality
import ExprGraph.Proofs.Tree.Equality

set_option autoImplicit false

namespace ExprGraph

namespace Expr

inductive Alike : Expr → Expr → Prop where
  | number {v w : Number} (same : v.SameValue w) : Alike (.number v) (.number w)
  | symbol (name : String) : Alike (.symbol name) (.symbol name)
  | binary {code : Opcode} {lhs rhs lhs' rhs' : Expr} (left : Alike lhs lhs')
      (right : Alike rhs rhs') : Alike (.binary code lhs rhs) (.binary code lhs' rhs')

variable {e d c : Expr}

theorem Alike.refl (e : Expr) : e.Alike e := by
  induction e with
  | number v => exact .number (.refl v)
  | symbol name => exact .symbol name
  | binary code lhs rhs left right => exact .binary left right

theorem Alike.symm (alike : e.Alike d) : d.Alike e := by
  induction alike with
  | number same => exact .number same.symm
  | symbol name => exact .symbol name
  | binary _ _ left right => exact .binary left right

theorem Alike.trans (first : e.Alike d) (second : d.Alike c) : e.Alike c := by
  induction first generalizing c with
  | number same =>
    cases second with
    | number again => exact .number (same.trans again)
  | symbol name => exact second
  | binary _ _ left right =>
    cases second with
    | binary leftAgain rightAgain => exact .binary (left leftAgain) (right rightAgain)

theorem alike_binary_iff {code code' : Opcode} {lhs rhs lhs' rhs' : Expr} :
    (binary code lhs rhs).Alike (binary code' lhs' rhs') ↔
      code = code' ∧ lhs.Alike lhs' ∧ rhs.Alike rhs' := by
  constructor
  · intro alike
    cases alike with
    | binary left right => exact ⟨rfl, left, right⟩
  · rintro ⟨rfl, left, right⟩
    exact .binary left right

theorem beq_iff_alike : (e == d) = true ↔ e.Alike d := by
  induction e generalizing d with
  | number v =>
    cases d with
    | number w =>
      rw [beq_number, Number.beq_iff_sameValue]
      constructor
      · exact .number
      · intro alike
        cases alike with
        | number same => exact same
    | symbol | binary => exact iff_of_false Bool.false_ne_true nofun
  | symbol s =>
    cases d with
    | symbol r =>
      rw [beq_symbol, beq_iff_eq]
      constructor
      · rintro rfl
        exact .symbol s
      · intro alike
        cases alike with
        | symbol => rfl
    | number | binary => exact iff_of_false Bool.false_ne_true nofun
  | binary code lhs rhs left right =>
    cases d with
    | binary code' lhs' rhs' =>
      rw [beq_binary, Bool.and_eq_true, Bool.and_eq_true, left, right, alike_binary_iff]
      exact and_congr_left' (by cases code <;> cases code' <;> decide)
    | number | symbol => exact iff_of_false Bool.false_ne_true nofun

end Expr

namespace Tree

variable {t u : Tree}

def pending (t u : Tree) : Option (List (Tree × Tree)) :=
  if t.same u then some []
  else match t, u with
    | .number _ v, .number _ w => if v == w then some [] else none
    | .symbol _ s, .symbol _ r => if s == r then some [] else none
    | .binary _ code lhs rhs, .binary _ code' lhs' rhs' =>
      if code == code' then some [(rhs, rhs'), (lhs, lhs')] else none
    | _, _ => none

def compareWithin : Nat → List (Tree × Tree) → Option Bool
  | _, [] => some true
  | 0, _ :: _ => none
  | looks + 1, (t, u) :: rest =>
    match t.pending u with
    | none => some false
    | some pairs => compareWithin looks (pairs ++ rest)

theorem equalPairs_cons (t u : Tree) (rest : List (Tree × Tree)) :
    equalPairs ((t, u) :: rest) =
      (t.pending u).elim false fun pairs => equalPairs (pairs ++ rest) := by
  rw [equalPairs.eq_def, pending.eq_def]
  by_cases same : t.same u
  · simp [same]
  · cases t with
    | number id v => cases u with
      | number id' w => by_cases equal : (v == w) = true <;> simp [same, equal]
      | symbol | binary => simp [same]
    | symbol id s => cases u with
      | symbol id' r => by_cases equal : s = r <;> simp [same, equal]
      | number | binary => simp [same]
    | binary id code lhs rhs => cases u with
      | binary id' code' lhs' rhs' =>
        by_cases equal : (code == code') = true <;> simp [same, equal]
      | number | symbol => simp [same]

theorem pairsSize_append (pairs rest : List (Tree × Tree)) :
    pairsSize (pairs ++ rest) = pairsSize pairs + pairsSize rest := by
  induction pairs with
  | nil => simp [pairsSize]
  | cons pair pairs ih => simp [pairsSize, ih, Nat.add_assoc]

theorem pairsSize_pending {pairs : List (Tree × Tree)} (asked : t.pending u = some pairs) :
    pairsSize pairs < t.size := by
  have positive := t.size_pos
  rw [pending.eq_def] at asked
  split at asked
  case isTrue =>
    obtain rfl := Option.some.inj asked
    exact positive
  case isFalse =>
    split at asked
    case h_4 => contradiction
    all_goals
      split at asked
      case isFalse => contradiction
      case isTrue =>
        obtain rfl := Option.some.inj asked
        simp [pairsSize, size]
        try omega

theorem compareWithin_eq {looks : Nat} {pairs : List (Tree × Tree)}
    (enough : pairsSize pairs ≤ looks) : compareWithin looks pairs = some (equalPairs pairs) := by
  induction looks generalizing pairs with
  | zero =>
    cases pairs with
    | nil => simp [compareWithin, equalPairs]
    | cons pair rest =>
      have := pair.1.size_pos
      simp only [pairsSize] at enough
      omega
  | succ looks ih =>
    cases pairs with
    | nil => simp [compareWithin, equalPairs]
    | cons pair rest =>
      obtain ⟨t, u⟩ := pair
      rw [compareWithin, equalPairs_cons]
      cases asked : t.pending u with
      | none => rfl
      | some pairs =>
        have fewer := pairsSize_pending asked
        simp only [pairsSize] at enough
        apply ih
        rw [pairsSize_append]
        omega

theorem compareWithin_size (t u : Tree) : compareWithin t.size [(t, u)] = some (t == u) :=
  compareWithin_eq (Nat.le_refl _)

theorem CoherentWith.beq_iff_alike (coherent : t.CoherentWith u) :
    (t == u) = true ↔ t.expr.Alike u.expr := by
  rw [coherent.beq_iff, Expr.beq_iff_alike]

def SideBySide (heap : Set Tree) : Prop := ∀ t ∈ heap, ∀ u ∈ heap, t.CoherentWith u

end Tree

-- What a program makes has its identities from one supply.
theorem Program.sideBySide {n : Nat} (program : Program n) (first : Nat) :
    Tree.SideBySide {t | t ∈ (program.trees first).results} := by
  intro t made u madeToo
  obtain ⟨trees, nodes, context, runs⟩ := program.exists_runs first
  have ran : program.trees first = trees := congrArg Prod.fst runs.made
  rw [ran] at made madeToo
  have node_of {v : Tree} (member : v ∈ trees.results) :
      ∃ node, Mirrors first context v node := by
    obtain ⟨i, inside, rfl⟩ := List.mem_iff_getElem.mp member
    have paired : i < nodes.results.length := runs.agree.lengths ▸ inside
    refine ⟨nodes.results[i], runs.agree.mirrors _ _ ?_⟩
    have zipped : i < (trees.results.zip nodes.results).length := by simp [inside, paired]
    exact List.getElem_zip ▸ List.getElem_mem zipped
  obtain ⟨node, mirrors⟩ := node_of made
  obtain ⟨other, others⟩ := node_of madeToo
  exact fun a left b right => mirrors.eq_of_identity_eq others left right

namespace Tree

/-- Comparing two trees says whether their expressions are alike, however much they share. -/
theorem comparison_decides_alike {heap : Set Tree} (sideBySide : SideBySide heap) :
    (∀ t u, compareWithin t.size [(t, u)] = some (t == u)) ∧
    (∀ t ∈ heap, ∀ u ∈ heap, ((t == u) = true ↔ t.expr.Alike u.expr)) ∧
    (∀ t ∈ heap, (t == t) = true) ∧
    (∀ t ∈ heap, ∀ u ∈ heap, (t == u) = (u == t)) ∧
    (∀ t ∈ heap, ∀ u ∈ heap, ∀ v ∈ heap,
      (t == u) = true → (u == v) = true → (t == v) = true) ∧
    (∀ t ∈ heap, ∀ u ∈ heap, ∀ t' u' : Tree,
      t'.CoherentWith u' → t'.expr = t.expr → u'.expr = u.expr → (t' == u') = (t == u)) ∧
    ∀ id code lhs rhs id' code' lhs' rhs',
      binary id code lhs rhs ∈ heap → binary id' code' lhs' rhs' ∈ heap →
      ((binary id code lhs rhs == binary id' code' lhs' rhs') = true ↔
        code = code' ∧ (lhs == lhs') = true ∧ (rhs == rhs') = true) := by
  have decides {t u : Tree} (left : t ∈ heap) (right : u ∈ heap) :=
    (sideBySide t left u right).beq_iff_alike
  refine ⟨compareWithin_size, fun t left u right => decides left right, ?refl, ?symm, ?trans,
    ?sharing, ?operators⟩
  case refl =>
    intro t member
    exact (decides member member).mpr (.refl _)
  case symm =>
    intro t left u right
    apply Bool.eq_iff_iff.mpr
    rw [decides left right, decides right left]
    exact ⟨.symm, .symm⟩
  case trans =>
    intro t first u second v third
    rw [decides first second, decides second third, decides first third]
    exact .trans
  case sharing =>
    intro t left u right t' u' coherent leftExpr rightExpr
    apply Bool.eq_iff_iff.mpr
    rw [coherent.beq_iff_alike, decides left right, leftExpr, rightExpr]
  case operators =>
    intro id code lhs rhs id' code' lhs' rhs' left right
    have coherent := sideBySide _ left _ right
    have lefts : lhs.CoherentWith lhs' := coherent.operands (by simp) (by simp)
    have rights : rhs.CoherentWith rhs' := coherent.operands (by simp) (by simp)
    rw [coherent.beq_iff_alike, lefts.beq_iff_alike, rights.beq_iff_alike]
    exact Expr.alike_binary_iff

def squares : Program 6 :=
  (((((Program.start.number (.float64 .nan)).symbol "x").binary .add (.handle 0) (.handle 1)).binary
    .mul (.handle 2) (.handle 2)).binary .add (.scalar (.float64 .nan)) (.handle 1)).binary
    .mul (.handle 2) (.handle 4)

theorem comparison_squares : SideBySide {t | t ∈ (squares.trees 0).results} ∧
    ((squares.trees 0).handle 3).same ((squares.trees 0).handle 5) = false ∧
    ((squares.trees 0).handle 3 == (squares.trees 0).handle 5) = true := by
  have heap := squares.sideBySide 0
  have shared : (squares.trees 0).handle 3 ∈ (squares.trees 0).results :=
    List.mem_of_getElem? (i := 3) rfl
  have copied : (squares.trees 0).handle 5 ∈ (squares.trees 0).results :=
    List.mem_of_getElem? (i := 5) rfl
  have decides := (comparison_decides_alike heap).2.1 _ shared _ copied
  exact ⟨heap, rfl, decides.mpr (.refl _)⟩

end Tree
end ExprGraph

import ExprGraph.Proofs.Ieee.Rounding

set_option autoImplicit false

namespace ExprGraph

namespace Ratio

variable {r : Ratio}

theorem nearestEven_bounds (positive : 0 < r.den) :
    2 * r.nearestEven * r.den ≤ 2 * r.num + r.den ∧ 2 * r.num ≤ 2 * r.nearestEven * r.den + r.den ∧
      (r.nearestEven % 2 = 1 → 2 * r.nearestEven * r.den < 2 * r.num + r.den ∧
        2 * r.num < 2 * r.nearestEven * r.den + r.den) := by
  have division := Nat.div_add_mod r.num r.den
  have remainder := Nat.mod_lt r.num positive
  unfold nearestEven floor
  generalize r.num / r.den = q at *
  generalize r.num % r.den = s at *
  rw [← division]
  dsimp only
  split
  next below => grind
  next =>
    split
    next above => grind
    next =>
      have tie : r.den = 2 * s := by omega
      rcases Nat.mod_two_eq_zero_or_one q with even | odd
      · rw [even]
        grind
      · rw [odd]
        grind

theorem nearestEven_near (positive : 0 < r.den) :
    (r.nearestEven : ℚ) - 1 / 2 ≤ r.toRat ∧ r.toRat ≤ r.nearestEven + 1 / 2 ∧
      (r.nearestEven % 2 = 1 → (r.nearestEven : ℚ) - 1 / 2 < r.toRat ∧
        r.toRat < r.nearestEven + 1 / 2) := by
  have den : (0 : ℚ) < r.den := Nat.cast_pos.mpr positive
  obtain ⟨low, high, inside⟩ := nearestEven_bounds positive
  have scaledLow : (2 * r.nearestEven * r.den : ℚ) ≤ 2 * r.num + r.den := by exact_mod_cast low
  have scaledHigh : (2 * r.num : ℚ) ≤ 2 * r.nearestEven * r.den + r.den := by
    exact_mod_cast high
  simp only [toRat, le_div_iff₀ den, div_le_iff₀ den, lt_div_iff₀ den, div_lt_iff₀ den]
  refine ⟨by linarith, by linarith, fun odd => ?_⟩
  have insideLow : (2 * r.nearestEven * r.den : ℚ) < 2 * r.num + r.den := by
    exact_mod_cast (inside odd).1
  have insideHigh : (2 * r.num : ℚ) < 2 * r.nearestEven * r.den + r.den := by
    exact_mod_cast (inside odd).2
  constructor <;> linarith

end Ratio

namespace Ieee

-- Infinity stands for the number that would follow the last finite magnitude.
def value (bits : Nat) : ℚ :=
  match binary64.decode bits with
  | .finite m e => m * 2 ^ e
  | _ => 2 ^ (1024 : Int)

-- Of two equally near numbers it is the one with an even mantissa.
structure Rounds (q : ℚ) (bits : Nat) : Prop where
  bound : bits ≤ binary64.infinity
  nearest : ∀ other ≤ binary64.infinity, |value bits - q| ≤ |value other - q|
  tied : ∀ other ≤ binary64.infinity, other ≠ bits → |value bits - q| = |value other - q| →
    bits % 2 = 0

variable {m m' bits : Nat} {e e' : Int} {q : ℚ}

theorem encode_binary64 (m : Nat) (e : Int) :
    binary64.encode m e = (e + 1074).toNat * 2 ^ 52 + m := by
  rw [Format.encode, leadingBit_binary64]
  rfl

theorem encode_inj (first : binary64.Holds m e) (second : binary64.Holds m' e')
    (same : binary64.encode m e = binary64.encode m' e') : m = m' ∧ e = e' := by
  obtain ⟨mantissa, exponent, leading⟩ := first
  obtain ⟨mantissa', exponent', leading'⟩ := second
  rw [leadingBit_binary64] at mantissa leading mantissa' leading'
  change -1074 ≤ e at exponent
  change -1074 ≤ e' at exponent'
  change -1074 < e → _ at leading
  change -1074 < e' → _ at leading'
  rw [encode_binary64, encode_binary64] at same
  omega

theorem value_of_holds (holds : binary64.Holds m e)
    (bound : binary64.encode m e ≤ binary64.infinity) :
    value (binary64.encode m e) = m * 2 ^ e := by
  rcases Nat.lt_or_eq_of_le bound with finite | infinite
  · obtain ⟨m', e', decoded, holds', encoded⟩ := Format.exists_decode_eq finite
    obtain ⟨rfl, rfl⟩ := encode_inj holds' holds encoded
    rw [value, decoded]
  · obtain ⟨mantissa, exponent, leading⟩ := holds
    rw [leadingBit_binary64] at mantissa leading
    change -1074 ≤ e at exponent
    change -1074 < e → _ at leading
    have fields := infinite
    rw [encode_binary64, infinity_binary64] at fields
    obtain ⟨rfl, rfl⟩ : m = 2 ^ 52 ∧ e = 972 := by omega
    rw [infinite, value, decode_infinity, Nat.cast_pow, Nat.cast_ofNat, ← zpow_natCast,
      ← zpow_add₀ two_ne_zero]
    rfl

-- A mantissa may be the next power of two.
theorem value_encode (mantissa : m ≤ 2 ^ 53) (exponent : -1074 ≤ e)
    (leading : -1074 < e → 2 ^ 52 ≤ m) (bound : binary64.encode m e ≤ binary64.infinity) :
    value (binary64.encode m e) = m * 2 ^ e := by
  rcases Nat.lt_or_eq_of_le mantissa with inner | rfl
  · apply value_of_holds _ bound
    constructor
    · rwa [leadingBit_binary64]
    · exact exponent
    · rw [leadingBit_binary64]
      exact leading
  · have carried : binary64.encode (2 ^ 53) e = binary64.encode (2 ^ 52) (e + 1) := by
      rw [encode_binary64, encode_binary64]
      omega
    rw [carried] at bound ⊢
    rw [value_of_holds _ bound, zpow_add₀ two_ne_zero]
    · norm_num
      ring
    · constructor
      · rw [leadingBit_binary64]
        norm_num
      · exact Int.le_add_one exponent
      · rw [leadingBit_binary64]
        exact fun _ => le_rfl

theorem exists_value_eq (finite : bits < binary64.infinity) :
    ∃ m e, m < 2 ^ 53 ∧ -1074 ≤ e ∧ e ≤ 971 ∧ (-1074 < e → 2 ^ 52 ≤ m) ∧
      binary64.encode m e = bits ∧ value bits = m * 2 ^ e ∧
      value (bits + 1) = (m + 1 : Nat) * 2 ^ e := by
  obtain ⟨m, e, -, holds, rfl⟩ := Format.exists_decode_eq finite
  have greatest := exponent_le_of_encode_lt holds finite
  have here := value_of_holds holds finite.le
  obtain ⟨mantissa, exponent, leading⟩ := holds
  rw [leadingBit_binary64] at mantissa leading
  change -1074 < e → _ at leading
  have next : binary64.encode m e + 1 = binary64.encode (m + 1) e := Nat.add_assoc _ _ _
  refine ⟨m, e, by omega, exponent, greatest, leading, rfl, here, ?_⟩
  rw [next]
  apply value_encode (by omega) exponent
  · intro inner
    have := leading inner
    omega
  · exact finite

theorem value_lt_succ (finite : bits < binary64.infinity) : value bits < value (bits + 1) := by
  obtain ⟨m, e, -, -, -, -, -, here, next⟩ := exists_value_eq finite
  rw [here, next]
  push_cast
  have unit : (0 : ℚ) < 2 ^ e := zpow_pos two_pos e
  linarith

theorem value_lt {other : Nat} (less : bits < other) (bound : other ≤ binary64.infinity) :
    value bits < value other := by
  induction other, less using Nat.le_induction with
  | base => exact value_lt_succ bound
  | succ other _ ih => exact (ih (by omega)).trans (value_lt_succ bound)

theorem value_le {other : Nat} (less : bits ≤ other) (bound : other ≤ binary64.infinity) :
    value bits ≤ value other := by
  rcases Nat.lt_or_eq_of_le less with lower | rfl
  · exact (value_lt lower bound).le
  · exact le_rfl

section Middle

variable {a b : ℚ} (less : a < b)

include less

-- Where a number lies with respect to the middle of two others tells which of them is nearer.
theorem right_near_iff : |b - q| ≤ |a - q| ↔ a + b ≤ 2 * q := by
  rw [← sq_le_sq]
  constructor
  · intro near
    by_contra above
    nlinarith
  · intro above
    nlinarith

theorem left_near_iff : |a - q| ≤ |b - q| ↔ 2 * q ≤ a + b := by
  rw [← sq_le_sq]
  constructor
  · intro near
    by_contra below
    nlinarith
  · intro below
    nlinarith

theorem equally_near_iff : |a - q| = |b - q| ↔ a + b = 2 * q := by
  rw [le_antisymm_iff, left_near_iff less, right_near_iff less, and_comm, ← le_antisymm_iff]

end Middle

theorem Rounds.of_neighbours (bound : bits ≤ binary64.infinity)
    (lower : ∀ below, below + 1 = bits → value below + value bits ≤ 2 * q ∧
      (value below + value bits = 2 * q → bits % 2 = 0))
    (upper : bits < binary64.infinity → 2 * q ≤ value bits + value (bits + 1) ∧
      (value bits + value (bits + 1) = 2 * q → bits % 2 = 0)) :
    Rounds q bits := by
  refine ⟨bound, fun other otherBound => ?_, fun other otherBound different near => ?_⟩
  · rcases lt_trichotomy other bits with less | rfl | greater
    · obtain ⟨below, rfl⟩ := Nat.exists_eq_add_one_of_ne_zero (Nat.ne_zero_of_lt less)
      have beyond := value_le (Nat.le_of_lt_succ less) (by omega)
      apply (right_near_iff (value_lt less bound)).mpr
      linarith [(lower below rfl).1]
    · exact le_rfl
    · have beyond := value_le (Nat.succ_le_of_lt greater) otherBound
      apply (left_near_iff (value_lt greater otherBound)).mpr
      linarith [(upper (by omega)).1]
  · rcases Nat.lt_or_gt_of_ne different with less | greater
    · obtain ⟨below, rfl⟩ := Nat.exists_eq_add_one_of_ne_zero (Nat.ne_zero_of_lt less)
      have middle := (equally_near_iff (value_lt less bound)).mp near.symm
      obtain ⟨least, even⟩ := lower below rfl
      obtain rfl : other = below := by
        by_contra farther
        have lower : value other < value below := value_lt (by omega) (by omega)
        linarith
      exact even middle
    · have middle := (equally_near_iff (value_lt greater otherBound)).mp near
      obtain ⟨greatest, even⟩ := upper (by omega)
      obtain rfl : other = bits + 1 := by
        by_contra farther
        have higher : value (bits + 1) < value other := value_lt (by omega) otherBound
        linarith
      exact even middle

-- Of two doubles that are equally near and not neighbours, neither is nearest.
theorem Rounds.next_of_near {other : Nat} (rounds : Rounds q bits) (greater : bits < other)
    (bound : other ≤ binary64.infinity) (near : |value bits - q| = |value other - q|) :
    other = bits + 1 := by
  have middle := (equally_near_iff (value_lt greater bound)).mp near
  have within : bits + 1 ≤ binary64.infinity := Nat.le_trans greater bound
  have least := rounds.nearest (bits + 1) within
  rw [left_near_iff (value_lt (Nat.lt_succ_self bits) within)] at least
  by_contra farther
  have higher : value (bits + 1) < value other := value_lt (by omega) bound
  linarith

theorem Rounds.not_lt {other : Nat} (first : Rounds q bits) (second : Rounds q other) :
    ¬ bits < other := by
  intro less
  have same := le_antisymm (first.nearest other second.bound) (second.nearest bits first.bound)
  have next := first.next_of_near less second.bound same
  have here := first.tied other second.bound less.ne' same
  have there := second.tied bits first.bound less.ne same.symm
  omega

theorem rounds_middle (middle : value bits + value (bits + 1) = 2 * q)
    (finite : bits < binary64.infinity) (even : bits % 2 = 0) : Rounds q bits := by
  apply Rounds.of_neighbours finite.le
  · rintro below rfl
    have less : value below < value (below + 1 + 1) := value_lt (by omega) finite
    constructor
    · linarith
    · exact fun _ => even
  · intro _
    constructor
    · exact middle.ge
    · exact fun _ => even

theorem Rounds.unique {other : Nat} (first : Rounds q bits) (second : Rounds q other) :
    bits = other :=
  Nat.le_antisymm (Nat.le_of_not_lt (second.not_lt first)) (Nat.le_of_not_lt (first.not_lt second))

theorem le_value_succ (mantissa : m ≤ 2 ^ 53) (exponent : -1074 ≤ e)
    (leading : -1074 < e → 2 ^ 52 ≤ m) (finite : binary64.encode m e < binary64.infinity) :
    (m + 1 : ℚ) * 2 ^ e ≤ value (binary64.encode m e + 1) := by
  rcases Nat.lt_or_eq_of_le mantissa with inner | rfl
  · have next : binary64.encode m e + 1 = binary64.encode (m + 1) e := Nat.add_assoc _ _ _
    have bound : binary64.encode (m + 1) e ≤ binary64.infinity := next ▸ finite
    rw [next, value_encode (by omega) exponent (by omega) bound, Nat.cast_add_one]
  · have carried : binary64.encode (2 ^ 53) e + 1 = binary64.encode (2 ^ 52 + 1) (e + 1) := by
      rw [encode_binary64, encode_binary64]
      omega
    have bound : binary64.encode (2 ^ 52 + 1) (e + 1) ≤ binary64.infinity := by omega
    have unit : (0 : ℚ) < 2 ^ e := zpow_pos two_pos e
    rw [carried, value_encode (by norm_num) (by omega) (by norm_num) bound,
      zpow_add_one₀ two_ne_zero]
    norm_num
    linarith

theorem value_pred {below : Nat} (previous : below + 1 = binary64.encode m e)
    (mantissa : m ≤ 2 ^ 53) (exponent : -1074 ≤ e) (leading : -1074 < e → 2 ^ 52 < m)
    (bound : binary64.encode m e ≤ binary64.infinity) : value below = (m - 1 : ℚ) * 2 ^ e := by
  rw [encode_binary64] at previous
  have positive : 0 < m := by omega
  have here : below = binary64.encode (m - 1) e := by
    rw [encode_binary64]
    omega
  rw [here, value_encode (by omega) exponent (by omega), Nat.cast_pred positive]
  rw [← here]
  rw [encode_binary64] at bound
  omega

-- Below a power of two the doubles are twice as close.
theorem value_pred_binade {below : Nat} (previous : below + 1 = binary64.encode (2 ^ 52) e)
    (exponent : -1074 < e) (bound : binary64.encode (2 ^ 52) e ≤ binary64.infinity) :
    value below = (2 ^ 52 - 1 / 2 : ℚ) * 2 ^ e := by
  rw [encode_binary64] at previous bound
  have here : below = binary64.encode (2 ^ 53 - 1) (e - 1) := by
    rw [encode_binary64]
    omega
  rw [here, value_encode (by norm_num) (by omega) (by norm_num) (by omega),
    zpow_sub_one₀ two_ne_zero]
  norm_num
  ring

theorem value_zero : value 0 = 0 := by
  have zero : binary64.encode 0 (-1074) = 0 := rfl
  rw [← zero, value_encode (by norm_num) le_rfl (by norm_num) (Nat.zero_le _), Nat.cast_zero,
    zero_mul]

theorem value_infinity : value binary64.infinity = 2 ^ (1024 : Int) := by
  rw [value, decode_infinity]

theorem rounds_infinity (large : 2 ^ (1024 : Int) ≤ q) : Rounds q binary64.infinity := by
  apply Rounds.of_neighbours le_rfl
  · intro below previous
    have less : value below < value binary64.infinity := value_lt (by omega) le_rfl
    rw [value_infinity] at less ⊢
    constructor
    · linarith
    · intro tied
      linarith
  · exact fun finite => absurd finite (lt_irrefl _)

theorem Rounds.lt_infinity (rounds : Rounds q bits) (small : q ≤ 2 ^ 64) :
    bits < binary64.infinity := by
  refine lt_of_le_of_ne rounds.bound ?_
  rintro rfl
  have word : value (binary64.encode (2 ^ 52) 12) = 2 ^ 64 := by
    rw [value_encode (by norm_num) (by norm_num) (by norm_num) (by decide)]
    norm_num
  have greater : (2 : ℚ) ^ 64 < 2 ^ (1024 : Int) := by
    rw [← zpow_natCast]
    exact zpow_lt_zpow_right₀ one_lt_two (by norm_num)
  have near := rounds.nearest (binary64.encode (2 ^ 52) 12) (by decide)
  rw [word, value_infinity, right_near_iff greater] at near
  generalize (2 : ℚ) ^ (1024 : Int) = top at near greater
  generalize (2 : ℚ) ^ 64 = word at near greater small
  linarith

theorem rounds_zero (small : q < 2 ^ (-1075 : Int)) : Rounds q 0 := by
  have one : value 1 = 2 * 2 ^ (-1075 : Int) := by
    have encoded : binary64.encode 1 (-1074) = 1 := rfl
    have exponent : (-1074 : Int) = 1 + -1075 := by norm_num
    rw [← encoded, value_encode (by norm_num) le_rfl (by norm_num) (by decide), Nat.cast_one,
      one_mul, exponent, zpow_add₀ two_ne_zero, zpow_one]
  apply Rounds.of_neighbours (Nat.zero_le _)
  · exact fun below previous => absurd previous (Nat.succ_ne_zero below)
  · intro _
    rw [value_zero, one]
    constructor
    · linarith
    · intro tied
      linarith

section Mantissa

variable {x : ℚ}

theorem mantissa_le (top : x < 2 ^ 53) (low : (m : ℚ) - 1 / 2 ≤ x) : m ≤ 2 ^ 53 := by
  have less : (m : ℚ) < (2 ^ 53 + 1 : Nat) := by
    push_cast
    linarith
  exact Nat.lt_succ_iff.mp (by exact_mod_cast less)

theorem le_mantissa (leading : 2 ^ 52 ≤ x) (high : x ≤ m + 1 / 2) : 2 ^ 52 ≤ m := by
  have less : ((2 ^ 52 : Nat) : ℚ) < (m + 1 : Nat) := by
    push_cast
    linarith
  exact Nat.lt_succ_iff.mp (by exact_mod_cast less)

theorem rounds_beyond (leading : 2 ^ 52 ≤ x) (beyond : 972 ≤ e) :
    Rounds (x * 2 ^ e) binary64.infinity := by
  have large : (2 : ℚ) ^ (972 : Int) ≤ 2 ^ e := zpow_le_zpow_right₀ one_le_two beyond
  have first : (2 : ℚ) ^ (52 : Int) ≤ x := by exact_mod_cast leading
  have exponent : (1024 : Int) = 52 + 972 := by norm_num
  apply rounds_infinity
  rw [exponent, zpow_add₀ two_ne_zero]
  exact mul_le_mul first large (by positivity) (le_trans (by positivity) first)

theorem encode_even (notOdd : ¬ m % 2 = 1) : binary64.encode m e % 2 = 0 := by
  rw [encode_binary64]
  omega

variable (exponent : -1074 ≤ e) (leading : -1074 < e → 2 ^ 52 ≤ x) (top : x < 2 ^ 53)
  (low : (m : ℚ) - 1 / 2 ≤ x) (high : x ≤ m + 1 / 2)
  (inside : m % 2 = 1 → (m : ℚ) - 1 / 2 < x ∧ x < m + 1 / 2)

include exponent leading top low high inside

theorem rounds_in_range (bound : binary64.encode m e ≤ binary64.infinity) :
    Rounds (x * 2 ^ e) (binary64.encode m e) := by
  have unit : (0 : ℚ) < 2 ^ e := zpow_pos two_pos e
  have mantissa := mantissa_le top low
  have leadingMantissa (above : -1074 < e) : 2 ^ 52 ≤ m := le_mantissa (leading above) high
  have here := value_encode mantissa exponent leadingMantissa bound
  have scaledLow := mul_le_mul_of_nonneg_right low unit.le
  have scaledHigh := mul_le_mul_of_nonneg_right high unit.le
  apply Rounds.of_neighbours bound
  · intro below previous
    by_cases binade : -1074 < e ∧ m = 2 ^ 52
    · obtain ⟨above, rfl⟩ := binade
      have start := mul_le_mul_of_nonneg_right (leading above) unit.le
      rw [here, value_pred_binade previous above bound]
      push_cast
      constructor
      · linarith
      · intro tie
        linarith
    · rw [here, value_pred previous mantissa exponent (by omega) bound]
      constructor
      · linarith
      · intro tie
        apply encode_even
        intro odd
        have strict := mul_lt_mul_of_pos_right (inside odd).1 unit
        linarith
  · intro finite
    have next := le_value_succ mantissa exponent leadingMantissa finite
    rw [here]
    constructor
    · linarith
    · intro tie
      apply encode_even
      intro odd
      have strict := mul_lt_mul_of_pos_right (inside odd).2 unit
      linarith

-- A mantissa that is nearest in its binade, also if it is the next power of two, makes the nearest
-- double, or infinity if it lies beyond the last one.
theorem rounds_of_mantissa :
    Rounds (x * 2 ^ e) (min binary64.infinity (binary64.encode m e)) := by
  rcases Nat.lt_or_ge binary64.infinity (binary64.encode m e) with beyond | bound
  · rw [min_eq_left beyond.le]
    have mantissa := mantissa_le top low
    rw [infinity_binary64, encode_binary64] at beyond
    exact rounds_beyond (leading (by omega)) (by omega)
  · rw [min_eq_right bound]
    exact rounds_in_range exponent leading top low high inside bound

end Mantissa

theorem rounds_round {r : Ratio} (positive : 0 < r.den) :
    Rounds r.toRat (binary64.round r) := by
  by_cases zero : r.num = 0
  · have nothing : r.toRat = 0 := by simp [Ratio.toRat, zero]
    rw [Format.round, if_pos zero, nothing]
    exact rounds_zero (by positivity)
  · have number := (Ratio.toRat_pos_iff positive).mpr zero
    have lowest := Int.zpow_log_le_self one_lt_two number
    have highest := Int.lt_zpow_succ_log_self one_lt_two r.toRat
    rw [Nat.cast_ofNat] at lowest highest
    have rounded : binary64.round r =
        let e := max (-1074) (Int.log 2 r.toRat - 52)
        min binary64.infinity (binary64.encode (r.scale 2 (-e)).nearestEven e) := by
      simp only [Format.round, if_neg zero, Ratio.floorLog2_eq positive zero]
      rfl
    simp only [rounded]
    generalize exponent : max (-1074) (Int.log 2 r.toRat - 52) = e
    have unit : (0 : ℚ) < 2 ^ e := zpow_pos two_pos e
    have top : r.toRat / 2 ^ e < 2 ^ 53 := by
      rw [div_lt_iff₀ unit, ← zpow_natCast, ← zpow_add₀ two_ne_zero]
      apply highest.trans_le
      apply zpow_le_zpow_right₀ one_le_two
      push_cast
      omega
    have leading (above : -1074 < e) : 2 ^ 52 ≤ r.toRat / 2 ^ e := by
      rw [le_div_iff₀ unit, ← zpow_natCast, ← zpow_add₀ two_ne_zero]
      apply le_trans _ lowest
      apply zpow_le_zpow_right₀ one_le_two
      push_cast
      omega
    have scaledDen : 0 < (r.scale 2 (-e)).den := Ratio.den_scale_pos positive two_pos _
    obtain ⟨low, high, inside⟩ := Ratio.nearestEven_near scaledDen
    rw [Format.toRat_scale_neg] at low high inside
    generalize (r.scale 2 (-e)).nearestEven = m at *
    have rounds := rounds_of_mantissa (by omega) leading top low high inside
    rwa [div_mul_cancel₀ _ unit.ne'] at rounds

end Ieee

end ExprGraph

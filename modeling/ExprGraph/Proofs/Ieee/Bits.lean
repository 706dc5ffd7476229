import Mathlib
import ExprGraph.Ieee.Format

set_option autoImplicit false

namespace ExprGraph

namespace Ieee.Format

variable {format : Format} {m bits : Nat} {e : Int}

structure Holds (format : Format) (m : Nat) (e : Int) : Prop where
  mantissa : m < 2 * format.leadingBit
  exponent : format.minExponent ≤ e
  leading : format.minExponent < e → format.leadingBit ≤ m

def encode (format : Format) (m : Nat) (e : Int) : Nat :=
  (e - format.minExponent).toNat * format.leadingBit + m

theorem leadingBit_eq (format : Format) : format.leadingBit = 2 ^ (format.precision - 1) := by
  rw [leadingBit, Nat.shiftLeft_eq, one_mul]

theorem leadingBit_pos (format : Format) : 0 < format.leadingBit := by
  rw [leadingBit_eq]
  exact Nat.two_pow_pos _

theorem exists_decode_eq (finite : bits < format.infinity) :
    ∃ m e, format.decode bits = .finite m e ∧ format.Holds m e ∧ format.encode m e = bits := by
  have remainder := Nat.mod_lt bits format.leadingBit_pos
  have division := Nat.div_add_mod' bits format.leadingBit
  cases field : bits / format.leadingBit with
  | zero =>
    rw [field, zero_mul, zero_add] at division
    refine ⟨_, _, by rw [decode, if_pos field], ⟨by omega, le_rfl, by omega⟩, ?_⟩
    simpa [encode] using division
  | succ k =>
    rw [field, Nat.succ_mul] at division
    refine ⟨_, _, by rw [decode, if_neg (by omega), if_pos finite],
      ⟨by omega, by omega, by omega⟩, ?_⟩
    simp only [encode, field, Nat.add_sub_cancel, add_sub_cancel_left, Int.toNat_natCast]
    omega

end Ieee.Format

namespace Ieee

variable {x : Float} {bits : Nat}

theorem leadingBit_binary64 : binary64.leadingBit = 2 ^ 52 := by decide

theorem infinity_binary64 : binary64.infinity = 2047 * 2 ^ 52 := by decide

theorem signBit_binary64 : binary64.signBit = 2 ^ 63 := by decide

theorem exponent_le_of_encode_lt {m : Nat} {e : Int} (holds : binary64.Holds m e)
    (finite : binary64.encode m e < binary64.infinity) : e ≤ 971 := by
  have leading : -1074 < e → _ := holds.leading
  rw [Format.encode, infinity_binary64] at finite
  rw [leadingBit_binary64] at finite leading
  change (e - -1074).toNat * _ + m < _ at finite
  omega

theorem decode_infinity : binary64.decode binary64.infinity = .infinite := by decide

theorem decode_ne_nan (number : bits ≤ binary64.infinity) : binary64.decode bits ≠ .nan := by
  rcases Nat.lt_or_eq_of_le number with finite | rfl
  · obtain ⟨m, e, decoded, -, -⟩ := Format.exists_decode_eq finite
    rw [decoded]
    simp
  · rw [decode_infinity]
    simp

theorem decode_of_infinity_lt (above : binary64.infinity < bits) (below : bits < binary64.signBit) :
    binary64.decode bits = .nan := by
  rw [Format.decode, infinity_binary64, leadingBit_binary64]
  rw [infinity_binary64] at above
  rw [signBit_binary64] at below
  rw [if_neg (by omega), if_neg (by omega), if_neg (by omega)]

theorem toFloat_split (x : Float) :
    toFloat (isNegative x) (x.toBits.toNat % binary64.signBit) = x := by
  have bound := x.toBits.toNat_lt
  have joined : (if isNegative x then binary64.signBit + x.toBits.toNat % binary64.signBit
      else x.toBits.toNat % binary64.signBit) = x.toBits.toNat := by
    simp only [isNegative, decide_eq_true_eq, signBit_binary64]
    split <;> omega
  rw [toFloat, joined, UInt64.ofNat_toNat, Float.ofBits_toBits]

theorem toBits_of_nan (nan : binary64.infinity < x.toBits.toNat % binary64.signBit) :
    x.toBits.toNat = binary64.nan := by
  rw [infinity_binary64, signBit_binary64] at nan
  have bound := x.toBits.toNat_lt
  have exponent :
      @Float.Model.UnpackedFloat.unpackExponent .binary64 x.toBits.toBitVec = -1#11 := by
    apply BitVec.eq_of_toNat_eq
    simp [Float.Model.UnpackedFloat.unpackExponent, Nat.shiftRight_eq_div_pow]
    omega
  have mantissa : @Float.Model.UnpackedFloat.unpackMantissa .binary64 x.toBits.toBitVec ≠ 0#52 := by
    intro zero
    have := congrArg BitVec.toNat zero
    simp [Float.Model.UnpackedFloat.unpackMantissa] at this
    omega
  have single := x.toModel.valid.eq_packedNaN exponent mantissa
  exact congrArg BitVec.toNat single

end Ieee

end ExprGraph

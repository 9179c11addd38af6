import Mathlib.Data.Nat.Log
import Mathlib.Data.Rat.Cast.Order
import Mathlib.Tactic.FieldSimp
import Mathlib.Tactic.Ring
import Reckon.Numeral

/-!
# Integers that are floating-point numbers

A natural number of at most 53 bits is the mantissa of a floating-point number, up to zeros behind
it, so the number nearest to it is itself.
-/

set_option autoImplicit false

namespace Reckon.Binary64

theorem two_to_eq (n : Nat) : twoTo n = 2 ^ n := by
  rw [twoTo, Nat.one_shiftLeft]

theorem round_quotient_one (n : Nat) : roundQuotient n 1 = n := by
  simp [roundQuotient, Nat.mod_one]

/-- A finite floating-point number that is exactly a natural number. -/
structure IsExactly (x : Binary64) (n : Nat) : Prop where
  finite : ∃ mantissa exponent, x = .finite false mantissa exponent ∧
    (mantissa : ℚ) * 2 ^ exponent = n

variable {n : Nat}

theorem fitting_exponent_one (positive : n ≠ 0) (short : n.log2 ≤ 52) :
    fittingExponent n 1 = (n.log2 : Int) - 52 := by
  have least : ¬n < 1 <<< n.log2 := by
    rw [Nat.one_shiftLeft, Nat.not_lt]
    exact Nat.log2_self_le positive
  have one : Nat.log2 1 = 0 := by decide
  simp only [fittingExponent, one, Nat.cast_zero, sub_zero, Nat.cast_nonneg, if_true,
    Int.toNat_natCast, least, if_false, leastExponent]
  omega

theorem log2_le_of_lt (small : n < 2 ^ 53) : n.log2 ≤ 52 := by
  by_cases zero : n = 0
  · subst zero
    decide
  · have less := (Nat.log2_lt zero).mpr small
    omega

theorem scaled_quotient_one (short : n.log2 ≤ 52) :
    scaledQuotient n 1 ((n.log2 : Int) - 52) = n * 2 ^ (52 - n.log2) := by
  rw [scaledQuotient]
  split_ifs with full
  · have same : n.log2 = 52 := by omega
    simp [same, round_quotient_one]
  · rw [round_quotient_one, Nat.shiftLeft_eq]
    congr 2
    omega

theorem mul_pow_lt (short : n.log2 ≤ 52) : n * 2 ^ (52 - n.log2) < 2 ^ 53 := by
  have below : n < 2 ^ (n.log2 + 1) := Nat.lt_log2_self
  calc n * 2 ^ (52 - n.log2) < 2 ^ (n.log2 + 1) * 2 ^ (52 - n.log2) :=
        Nat.mul_lt_mul_of_pos_right below (Nat.two_pow_pos _)
    _ = 2 ^ 53 := by
      rw [← pow_add]
      congr 1
      omega

theorem of_int?_exact (small : n < 2 ^ 53) : ∃ x, ofInt? n = some x ∧ IsExactly x n := by
  have short := log2_le_of_lt small
  have sign : ¬((n : Int) < 0) := by omega
  by_cases zero : n = 0
  · subst zero
    exact ⟨_, rfl, ⟨0, leastExponent, rfl, by simp⟩⟩
  have narrow : n * 2 ^ (52 - n.log2) ≠ twoTo 53 := by
    rw [two_to_eq]
    exact (mul_pow_lt short).ne
  have low : ¬greatestExponent < (n.log2 : Int) - 52 := by
    rw [greatestExponent]
    omega
  refine ⟨.finite false (n * 2 ^ (52 - n.log2)) ((n.log2 : Int) - 52), ?_, ⟨_, _, rfl, ?_⟩⟩
  · simp only [ofInt?, ofRatio, sign, decide_false, Int.natAbs_natCast, if_neg zero,
      fitting_exponent_one zero short, scaled_quotient_one short, if_neg narrow, if_neg low]
  · have back : ((n.log2 : Int) - 52) = -((52 - n.log2 : Nat) : Int) := by omega
    rw [back, zpow_neg, zpow_natCast]
    push_cast
    field_simp

end Reckon.Binary64

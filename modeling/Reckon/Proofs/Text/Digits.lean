import Reckon.Text.Digit

/-!
# Digits and the numbers they write
-/

set_option autoImplicit false

namespace Reckon.Text

theorem digit_value_lt {c : Char} {value : Nat} (known : digitValue? c = some value) :
    value < 10 := by
  unfold digitValue? at known
  simp only at known
  split at known
  · split at known
    · rename_i range
      rw [Bool.and_eq_true, decide_eq_true_iff, decide_eq_true_iff] at range
      cases known
      omega
    · cases known
  · obtain ⟨first, found, same⟩ := Option.map_eq_some_iff.mp known
    have range := Array.find?_some found
    simp only [Bool.and_eq_true, decide_eq_true_eq] at range
    omega

theorem read_nat_nil : readNat [] = 0 := rfl

theorem read_nat_append_digit (cs : List Char) {c : Char} {value : Nat}
    (known : digitValue? c = some value) : readNat (cs ++ [c]) = 10 * readNat cs + value := by
  simp [readNat, known]

theorem read_nat_digit {c : Char} {value : Nat} (known : digitValue? c = some value) :
    readNat [c] = value := by
  simpa [read_nat_nil] using read_nat_append_digit [] known

/-- A character between two ASCII digits is a digit, and its value lies between theirs. -/
theorem digit_value_between {low high c : Char} (bottom : '0' ≤ low) (top : high ≤ '9')
    (above : low ≤ c) (below : c ≤ high) :
    ∃ value, digitValue? c = some value ∧ value ≤ high.toNat - 48 := by
  have nat : ∀ a b : Char, a ≤ b ↔ a.toNat ≤ b.toNat := fun a b => Iff.rfl
  rw [nat] at *
  have zero : '0'.toNat = 48 := rfl
  have nine : '9'.toNat = 57 := rfl
  refine ⟨c.toNat - 48, ?_, by omega⟩
  unfold digitValue?
  have digit : (0x30 ≤ c.toNat && c.toNat ≤ 0x39) = true := by
    rw [Bool.and_eq_true, decide_eq_true_iff, decide_eq_true_iff]
    omega
  simp only [digit, if_true]
  rw [if_pos (by omega)]

/-! Decimal digits of numbers. -/

theorem digit_value_digit_char {n : Nat} (small : n < 10) : digitValue? n.digitChar = some n := by
  have all : ∀ n < 10, digitValue? (Nat.digitChar n) = some n := by decide
  exact all n small

/-- The decimal digits of a number write it. -/
theorem read_nat_to_digits (n : Nat) : readNat (Nat.toDigits 10 n) = n := by
  induction n using Nat.strongRecOn with
  | ind n ih =>
      rcases Nat.lt_or_ge n 10 with small | large
      · rw [Nat.toDigits_of_lt_base small]
        exact read_nat_digit (digit_value_digit_char small)
      · rw [Nat.toDigits_of_base_le (by decide) large,
          read_nat_append_digit _ (digit_value_digit_char (Nat.mod_lt n (by decide))),
          ih (n / 10) (by omega)]
        omega

theorem is_digit_of_ascii {c : Char} (digit : c.isDigit = true) : isDigit c = true := by
  have both : ('0' ≤ c && c ≤ '9') = true := digit
  rw [Bool.and_eq_true, decide_eq_true_iff, decide_eq_true_iff] at both
  obtain ⟨value, known, -⟩ := digit_value_between (Char.le_refl _) (Char.le_refl _) both.1 both.2
  rw [isDigit, known]
  rfl

theorem is_digit_of_mem_to_digits {n : Nat} {c : Char} (member : c ∈ Nat.toDigits 10 n) :
    isDigit c = true :=
  is_digit_of_ascii (Nat.isDigit_of_mem_toDigits (by decide) (by decide) member)

theorem digit_count_to_digits (n : Nat) :
    digitCount (Nat.toDigits 10 n) = (Nat.toDigits 10 n).length :=
  List.countP_eq_length.mpr fun _ member => is_digit_of_mem_to_digits member

end Reckon.Text

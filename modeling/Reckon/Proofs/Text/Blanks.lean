import Mathlib.Data.List.TakeWhile
import Reckon.Text.Blank
import Reckon.Text.Digit
import Reckon.Text.WordChar

/-!
# White space and trimming

What is trimmed from the ends of a text is neither a digit nor part of a word. Trimming takes such
characters away from both ends and nothing else.
-/

set_option autoImplicit false

namespace Reckon.Text

/-! Characters. -/

def trimmedCodes : List Nat :=
  [0x09, 0x0A, 0x0B, 0x0C, 0x0D, 0x1C, 0x1D, 0x1E, 0x1F, 0x20, 0x85, 0xA0, 0x1680, 0x2000, 0x2001,
    0x2002, 0x2003, 0x2004, 0x2005, 0x2006, 0x2007, 0x2008, 0x2009, 0x200A, 0x2028, 0x2029, 0x202F,
    0x205F, 0x3000]

theorem code_of_trimmed {c : Char} (trimmed : isTrimmed c = true) : c.toNat ∈ trimmedCodes := by
  simp only [isTrimmed, isBlank, Bool.or_eq_true, Bool.and_eq_true, decide_eq_true_eq,
    beq_iff_eq] at trimmed
  simp only [trimmedCodes, List.mem_cons, List.not_mem_nil, or_false]
  omega

theorem not_word_of_trimmed {c : Char} (trimmed : isTrimmed c = true) : isWordChar c = false := by
  have outside : wordRanges.toList.all (fun range => trimmedCodes.all fun n =>
      !(range.1 ≤ n && n ≤ range.2)) = true := by
    decide +kernel
  have ascii : trimmedCodes.all (fun n => !isAsciiWord n) = true := by
    decide
  have code := code_of_trimmed trimmed
  simp only [isWordChar]
  split
  · simpa using List.all_eq_true.mp ascii c.toNat code
  · rw [← Array.any_toList, List.any_eq_false]
    intro range member
    have apart := List.all_eq_true.mp (List.all_eq_true.mp outside range member) c.toNat code
    rw [Bool.not_eq_true'] at apart
    rw [apart]
    exact Bool.false_ne_true

theorem not_digit_of_trimmed {c : Char} (trimmed : isTrimmed c = true) : isDigit c = false := by
  have all : ∀ n ∈ trimmedCodes, isDigit (Char.ofNat n) = false := by
    decide +kernel
  rw [show c = Char.ofNat c.toNat from (Char.ofNat_toNat c).symm]
  exact all c.toNat (code_of_trimmed trimmed)

/-- A character that is neither trimmed nor skipped between the parts of an expression. -/
def isInk (c : Char) : Bool :=
  !isTrimmed c && c != ','

theorem trimmed_or_comma_of_not_ink {c : Char} (blank : isInk c = false) :
    isTrimmed c = true ∨ c = ',' := by
  rw [isInk, Bool.and_eq_false_iff, Bool.not_eq_false', bne_eq_false_iff_eq] at blank
  exact blank

theorem untrimmed_of_ink {c : Char} (ink : isInk c = true) : isTrimmed c = false := by
  rw [isInk, Bool.and_eq_true, Bool.not_eq_true'] at ink
  exact ink.1

/-! Trimming. -/

def trailing (cs : List Char) : List Char :=
  ((cs.dropWhile isTrimmed).reverse.takeWhile isTrimmed).reverse

/-- A text is what is trimmed in front, what is left, and what is trimmed behind. -/
theorem trim_split (cs : List Char) : cs.takeWhile isTrimmed ++ (trim cs ++ trailing cs) = cs := by
  rw [trim, trailing, ← List.reverse_append, List.takeWhile_append_dropWhile, List.reverse_reverse,
    List.takeWhile_append_dropWhile]

theorem trimmed_of_mem_leading {cs : List Char} {c : Char}
    (member : c ∈ cs.takeWhile isTrimmed) : isTrimmed c = true :=
  (List.mem_takeWhile_imp member : isTrimmed c = true)

theorem trimmed_of_mem_trailing {cs : List Char} {c : Char} (member : c ∈ trailing cs) :
    isTrimmed c = true :=
  List.mem_takeWhile_imp (List.mem_reverse.mp member)

end Reckon.Text

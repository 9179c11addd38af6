import Reckon.Proofs.Pattern.Alphabet
import Reckon.Proofs.Text.Blanks

/-!
# Which characters a pattern can end with

The last character of a match is of one of the classes that its pattern can end with, as the first
one is of those it can begin with. If neither take white space or a comma, a match has none of these
at its ends.
-/

set_option autoImplicit false

namespace Reckon

namespace CharClass

def isInk : CharClass → Bool
  | exactly c | letter c => Text.isInk c
  | anyLetter | digit | word => true
  | between low high =>
    (','.toNat :: Text.trimmedCodes).all fun n => !(low.toNat ≤ n && n ≤ high.toNat)
  | blank => false
  | either left right => left.isInk && right.isInk

theorem code_of_not_ink {c : Char} (faint : Text.isInk c = false) :
    c.toNat ∈ ','.toNat :: Text.trimmedCodes := by
  rcases Text.trimmed_or_comma_of_not_ink faint with trimmed | rfl
  · exact List.mem_cons_of_mem _ (Text.code_of_trimmed trimmed)
  · exact List.mem_cons_self

theorem caseless_of_not_ink {c : Char} (faint : Text.isInk c = false) :
    c.toLower = c ∧ anyLetter.accepts c = false := by
  have all : ∀ n ∈ ','.toNat :: Text.trimmedCodes, (Char.ofNat n).toLower = Char.ofNat n ∧
      anyLetter.accepts (Char.ofNat n) = false := by
    decide
  rw [← Char.ofNat_toNat c]
  exact all c.toNat (code_of_not_ink faint)

theorem matches_letter_of_not_ink {letter c : Char} (faint : Text.isInk c = false)
    (matched : matchesLetter letter c = true) : letter = c := by
  obtain ⟨lower, foreign⟩ := caseless_of_not_ink faint
  rw [matchesLetter, lower, Bool.or_eq_true, beq_iff_eq, beq_iff_eq] at matched
  rcases matched with same | folds
  · exact same.symm
  · have large : c.toNat ∈ [0x130, 0x17F, 0x212A] := by
      unfold foldsTo at folds
      split at folds <;> simp_all
    simp [accepts, large] at foreign

theorem ink_of_accepts {cls : CharClass} {c : Char} (ink : cls.isInk = true)
    (accepted : cls.accepts c = true) : Text.isInk c = true := by
  by_contra faint
  rw [Bool.not_eq_true] at faint
  induction cls with
  | exactly d =>
      rw [isInk, ← beq_iff_eq.mp accepted, faint] at ink
      cases ink
  | letter l =>
      rw [isInk, matches_letter_of_not_ink faint accepted, faint] at ink
      cases ink
  | anyLetter =>
      rw [(caseless_of_not_ink faint).2] at accepted
      cases accepted
  | digit =>
      rw [accepts] at accepted
      rcases Text.trimmed_or_comma_of_not_ink faint with trimmed | rfl
      · rw [Text.not_digit_of_trimmed trimmed] at accepted
        cases accepted
      · revert accepted
        decide
  | word =>
      rw [accepts] at accepted
      rcases Text.trimmed_or_comma_of_not_ink faint with trimmed | rfl
      · rw [Text.not_word_of_trimmed trimmed] at accepted
        cases accepted
      · revert accepted
        decide
  | between low high =>
      have inside : low.toNat ≤ c.toNat ∧ c.toNat ≤ high.toNat := by
        simpa [accepts, Char.le_def, UInt32.le_iff_toNat_le] using accepted
      have apart := List.all_eq_true.mp ink c.toNat (code_of_not_ink faint)
      simp [inside] at apart
  | blank => cases ink
  | either left right ihLeft ihRight =>
      obtain ⟨inkLeft, inkRight⟩ := (Bool.and_eq_true _ _).mp ink
      rcases (Bool.or_eq_true _ _).mp accepted with here | here
      · exact ihLeft inkLeft here
      · exact ihRight inkRight here

end CharClass

namespace Pattern

/-- The classes of the characters that a match can end with. -/
def closings : Pattern → List CharClass
  | empty | edge | notAhead _ | notBehind _ => []
  | one cls => [cls]
  | seq first second => closings second ++ if mayBeEmpty second then closings first else []
  | alt first second => closings first ++ closings second
  | repeated body _ _ => closings body
  | group _ body => closings body

variable {p : Pattern} {cs : List Char} {c : Char}

theorem exists_last_of_flatten {parts : List (List Char)}
    (ends : parts.flatten.getLast? = Option.some c) :
    ∃ part ∈ parts, part.getLast? = Option.some c := by
  induction parts with
  | nil => cases ends
  | cons part parts ih =>
      rw [List.flatten_cons, List.getLast?_append, Option.or_eq_some_iff] at ends
      rcases ends with later | ⟨-, here⟩
      · obtain ⟨other, member, last⟩ := ih later
        exact ⟨other, List.mem_cons_of_mem _ member, last⟩
      · exact ⟨part, List.mem_cons_self, here⟩

/-- The last character that a pattern spells is of a class it can end with. -/
theorem Spells.closes (spells : Spells p cs) (ends : cs.getLast? = Option.some c) :
    ∃ cls ∈ p.closings, cls.accepts c = true := by
  induction spells with
  | empty | edge | notAhead | notBehind => cases ends
  | @one cls d accepted =>
      cases ends
      exact ⟨cls, List.mem_singleton_self cls, accepted⟩
  | @seq first second left right head tail ihHead ihTail =>
      rw [List.getLast?_append, Option.or_eq_some_iff] at ends
      rcases ends with later | ⟨nothing, here⟩
      · obtain ⟨cls, member, accepted⟩ := ihTail later
        exact ⟨cls, List.mem_append_left _ member, accepted⟩
      · obtain ⟨cls, member, accepted⟩ := ihHead here
        refine ⟨cls, List.mem_append_right _ ?_, accepted⟩
        rw [if_pos (tail.may_be_empty (List.getLast?_eq_none_iff.mp nothing))]
        exact member
  | altFirst here ih =>
      obtain ⟨cls, member, accepted⟩ := ih ends
      exact ⟨cls, List.mem_append_left _ member, accepted⟩
  | altSecond here ih =>
      obtain ⟨cls, member, accepted⟩ := ih ends
      exact ⟨cls, List.mem_append_right _ member, accepted⟩
  | repeated parts each enough bounded ih =>
      obtain ⟨part, member, last⟩ := exists_last_of_flatten ends
      exact ih part member last
  | group here ih => exact ih ends

section Matches

variable {text : Array Char} {pos : Nat} {m : Match}

theorem get_last?_chars_between {start stop : Nat} (order : start < stop)
    (inside : stop ≤ text.size) :
    (charsBetween text start stop).getLast? = text[stop - 1]? := by
  obtain ⟨c, here⟩ : ∃ c, text[stop - 1]? = Option.some c :=
    ⟨_, Array.getElem?_eq_getElem (by omega)⟩
  have last := chars_between_one here
  rw [Nat.sub_add_cancel (by omega)] at last
  rw [chars_between_append text (by omega : start ≤ stop - 1) (Nat.sub_le stop 1), last, here]
  simp

/-- A match that covers something ends with a character that its pattern can end with. -/
theorem MatchesAt.closes (way : p.MatchesAt text pos m) (covers : m.start < m.stop) :
    ∃ c, text[m.stop - 1]? = Option.some c ∧ ∃ cls ∈ p.closings, cls.accepts c = true := by
  obtain ⟨start, -, inside, content⟩ := way.range
  have within : m.stop ≤ text.size := by omega
  obtain ⟨c, here⟩ : ∃ c, text[m.stop - 1]? = Option.some c :=
    ⟨_, Array.getElem?_eq_getElem (by omega)⟩
  refine ⟨c, here, way.spells.closes ?_⟩
  rw [content, get_last?_chars_between covers within, here]

end Matches

end Pattern

end Reckon

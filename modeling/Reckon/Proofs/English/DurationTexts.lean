import Reckon.Proofs.English.DurationParts
import Reckon.Proofs.English.SpokenNumbers
import Reckon.Proofs.Pattern.Spellable
import Reckon.Proofs.Text.Digits

/-!
# Texts of counted units

A text in which parts follow one another, each of them digits, a space and a unit in the plural,
with single spaces between the parts. Where such a text has digits, words and gaps, and that no
other word can be read in it.
-/

set_option autoImplicit false

namespace Reckon.English

open Forest
open Pattern hiding some

/-- A part at its place: digits from `start` to `gap`, a space, and a unit up to `stop`. -/
structure Slot where
  grain : Grain
  count : Nat
  start : Nat

namespace Slot

def gap (x : Slot) : Nat :=
  x.start + (Nat.toDigits 10 x.count).length

def stop (x : Slot) : Nat :=
  x.gap + 1 + x.grain.unit.toList.length

/-- The text has a part at its place. -/
structure LiesIn (text : Array Char) (x : Slot) : Prop where
  digits : charsBetween text x.start x.gap = Nat.toDigits 10 x.count
  space : text[x.gap]? = some ' '
  unit : StandsAt text (x.gap + 1) x.grain.unit
  name : charsBetween text (x.gap + 1) x.stop = x.grain.unit.toList

end Slot

def durationChars : List Char :=
  "0123456789 acdehikmnorstuwy".toList

/-- A text that consists of parts with single spaces between them. -/
structure DurationText (text : Array Char) (total : Nat) (slot : Nat → Slot) : Prop where
  chars : ∀ c ∈ text, c ∈ durationChars
  nonempty : 0 < total
  lies : ∀ i < total, (slot i).LiesIn text
  first : (slot 0).start = 0
  next : ∀ i, i + 1 < total →
    text[(slot i).stop]? = some ' ' ∧ (slot (i + 1)).start = (slot i).stop + 1
  last : ∀ i, i + 1 = total → (slot i).stop = text.size

theorem unit_plain (g : Grain) : IsPlain g.unit := by
  cases g <;> decide

/-! One part. -/

section Slots

variable {text : Array Char} {x : Slot} {pos : Nat}

theorem Slot.start_lt_gap (x : Slot) : x.start < x.gap := by
  have positive := List.length_pos_iff.mpr (Nat.toDigits_ne_nil (n := x.count) (b := 10))
  rw [gap]
  omega

theorem Slot.gap_lt_stop (x : Slot) : x.gap + 1 < x.stop := by
  have positive := List.length_pos_iff.mpr (unit_plain x.grain).1
  rw [stop]
  omega

theorem Slot.start_lt_stop (x : Slot) : x.start < x.stop := by
  have digits := x.start_lt_gap
  have unit := x.gap_lt_stop
  omega

theorem get_elem?_chars_between {start stop : Nat} (after : start ≤ pos) (before : pos < stop) :
    (charsBetween text start stop)[pos - start]? = text[pos]? := by
  rw [charsBetween, Array.getElem?_toList, Array.getElem?_extract]
  have place : start + (pos - start) = pos := by omega
  by_cases inside : pos < text.size
  · rw [if_pos (by omega), place]
  · rw [if_neg (by omega), Array.getElem?_eq_none (by omega)]

theorem is_word_char_of_digit {c : Char} (digit : c.isDigit = true) : Text.isWordChar c = true := by
  have range : 48 ≤ c.toNat ∧ c.toNat ≤ 57 := by
    simpa [Char.isDigit, UInt32.le_iff_toNat_le] using digit
  have small : c.toNat < 0x80 := by omega
  simp only [Text.isWordChar, Text.isAsciiWord, if_pos small, Bool.or_eq_true, Bool.and_eq_true,
    decide_eq_true_eq]
  omega

theorem Slot.LiesIn.digit_at (lies : x.LiesIn text) (after : x.start ≤ pos) (before : pos < x.gap) :
    DigitAt text pos ∧ isWordAt text pos = true := by
  have same : (charsBetween text x.start x.gap)[pos - x.start]? = text[pos]? :=
    get_elem?_chars_between after before
  have inside : pos - x.start < (Nat.toDigits 10 x.count).length := by
    rw [Slot.gap] at before
    omega
  rw [lies.digits, List.getElem?_eq_getElem inside] at same
  have member := List.getElem_mem inside
  generalize (Nat.toDigits 10 x.count)[pos - x.start] = c at same member
  refine ⟨⟨c, same.symm, Text.is_digit_of_mem_to_digits member⟩, ?_⟩
  rw [isWordAt, ← same]
  exact is_word_char_of_digit (Nat.isDigit_of_mem_toDigits (by decide) (by decide) member)

theorem Slot.LiesIn.digits_from (lies : x.LiesIn text) : DigitsFrom text x.start x.gap :=
  fun _ after before => (lies.digit_at after before).1

theorem Slot.LiesIn.letter_at (lies : x.LiesIn text) (after : x.gap < pos) (before : pos < x.stop) :
    isWordAt text pos = true ∧ ¬DigitAt text pos := by
  obtain ⟨i, rfl⟩ : ∃ i, pos = x.gap + 1 + i := ⟨pos - (x.gap + 1), by omega⟩
  have inside : i < x.grain.unit.toList.length := by
    rw [Slot.stop] at before
    omega
  refine ⟨lies.unit.reads.is_word_at (unit_plain x.grain).2 inside, ?_⟩
  obtain ⟨c, here, foreign⟩ := foreign_of_reads lies.unit.reads (unit_plain x.grain).2
    (x.gap + 1 + i) (by omega) (by omega)
  exact (not_digit_of_foreign here foreign).1

theorem exists_of_is_word_at (word : isWordAt text pos = true) :
    ∃ c, text[pos]? = some c ∧ Text.isWordChar c = true := by
  rw [isWordAt] at word
  split at word
  · rename_i c here
    exact ⟨c, here, word⟩
  · cases word

theorem not_digit_of_space (space : text[pos]? = some ' ') : ¬DigitAt text pos := by
  rintro ⟨c, here, accepted⟩
  obtain rfl := Option.some.inj (space.symm.trans here)
  revert accepted
  decide

theorem not_word_of_space (space : text[pos]? = some ' ') : isWordAt text pos = false := by
  rw [isWordAt, space]
  decide

end Slots

/-! All parts. -/

namespace DurationText

variable {text : Array Char} {total : Nat} {slot : Nat → Slot} {i j pos : Nat} {word : String}

theorem stop_lt_start (only : DurationText text total slot) (order : i < j) (inside : j < total) :
    (slot i).stop < (slot j).start := by
  induction j with
  | zero => omega
  | succ j ih =>
      have step := (only.next j inside).2
      rcases Nat.lt_succ_iff_lt_or_eq.mp order with earlier | rfl
      · have before := ih earlier (by omega)
        have digits := (slot j).start_lt_gap
        have unit := (slot j).gap_lt_stop
        omega
      · omega

/-- Parts that share a place are the same. -/
theorem eq_of_overlap (only : DurationText text total slot) (left : i < total) (right : j < total)
    (first : (slot i).start ≤ (slot j).stop) (second : (slot j).start ≤ (slot i).stop) : i = j := by
  rcases Nat.lt_trichotomy i j with before | same | after
  · have apart := only.stop_lt_start before right
    omega
  · exact same
  · have apart := only.stop_lt_start after left
    omega

theorem stop_le (only : DurationText text total slot) (inside : i < total) :
    (slot i).stop ≤ text.size := by
  rcases Nat.lt_or_ge (i + 1) total with more | none
  · exact (Array.getElem?_eq_some_iff.mp (only.next i more).1).1.le
  · exact (only.last i (by omega)).le

theorem covers (only : DurationText text total slot) (inside : pos < text.size) :
    ∃ i < total, (slot i).start ≤ pos ∧ pos ≤ (slot i).stop := by
  have upTo : ∀ k < total, pos ≤ (slot k).stop → ∃ i < total, (slot i).start ≤ pos ∧
      pos ≤ (slot i).stop := by
    intro k
    induction k with
    | zero => exact fun known before => ⟨0, known, by rw [only.first]; omega, before⟩
    | succ k ih =>
        intro known before
        have step := (only.next k known).2
        rcases Nat.lt_or_ge pos (slot (k + 1)).start with earlier | here
        · exact ih (by omega) (by omega)
        · exact ⟨k + 1, known, here, before⟩
  have nonempty := only.nonempty
  have last := only.last (total - 1) (by omega)
  exact upTo (total - 1) (by omega) (by omega)

theorem stop_space (only : DurationText text total slot) (known : i < total)
    (inside : (slot i).stop < text.size) : text[(slot i).stop]? = some ' ' := by
  rcases Nat.lt_or_ge (i + 1) total with more | none
  · exact (only.next i more).1
  · have ends := only.last i (by omega)
    omega

/-- The text has a space before each part but the first. -/
theorem space_before (only : DurationText text total slot) (known : i < total)
    (before : pos + 1 = (slot i).start) : text[pos]? = some ' ' := by
  cases i with
  | zero =>
      rw [only.first] at before
      omega
  | succ i =>
      obtain ⟨space, start⟩ := only.next i known
      rwa [show pos = (slot i).stop by omega]

theorem word_place (only : DurationText text total slot) (word : isWordAt text pos = true) :
    ∃ i < total, ((slot i).start ≤ pos ∧ pos < (slot i).gap) ∨
      ((slot i).gap < pos ∧ pos < (slot i).stop) := by
  have inside : pos < text.size := by
    obtain ⟨c, here, -⟩ := exists_of_is_word_at word
    exact (Array.getElem?_eq_some_iff.mp here).1
  obtain ⟨i, known, after, before⟩ := only.covers inside
  refine ⟨i, known, ?_⟩
  have not_space : text[pos]? ≠ some ' ' := by
    intro space
    rw [not_word_of_space space] at word
    cases word
  have other : pos ≠ (slot i).gap := by
    rintro rfl
    exact not_space (only.lies i known).space
  have early : pos ≠ (slot i).stop := by
    rintro rfl
    exact not_space (only.stop_space known inside)
  omega

theorem digit_place (only : DurationText text total slot) (digit : DigitAt text pos) :
    ∃ i < total, (slot i).start ≤ pos ∧ pos < (slot i).gap := by
  have inside : pos < text.size := by
    obtain ⟨c, here, -⟩ := digit
    exact (Array.getElem?_eq_some_iff.mp here).1
  obtain ⟨i, known, after, before⟩ := only.covers inside
  refine ⟨i, known, after, ?_⟩
  by_contra late
  have lies := only.lies i known
  rcases Nat.lt_trichotomy pos (slot i).stop with letter | stop | beyond
  · rcases Nat.lt_or_eq_of_le (Nat.not_lt.mp late) with behind | gap
    · exact (lies.letter_at behind letter).2 digit
    · exact not_digit_of_space lies.space (gap ▸ digit)
  · exact not_digit_of_space (only.stop_space known (stop ▸ inside)) (stop ▸ digit)
  · omega

/-- Digits with no digit before them are the count of a part. -/
theorem clear_place (only : DurationText text total slot) (digit : DigitAt text pos)
    (clear : Clear text pos) : ∃ i < total, pos = (slot i).start := by
  obtain ⟨i, known, after, before⟩ := only.digit_place digit
  refine ⟨i, known, ?_⟩
  by_contra inner
  obtain ⟨place, rfl⟩ : ∃ place, pos = place + 1 := ⟨pos - 1, by omega⟩
  exact clear place rfl ((only.lies i known).digit_at (by omega) (by omega)).1

theorem word_opens (only : DurationText text total slot) (opens : isEdge text pos = true)
    (word : isWordAt text pos = true) :
    ∃ i < total, pos = (slot i).start ∨ pos = (slot i).gap + 1 := by
  obtain ⟨i, known, place⟩ := only.word_place word
  have lies := only.lies i known
  refine ⟨i, known, ?_⟩
  by_contra inner
  rw [not_or] at inner
  obtain ⟨before, rfl⟩ : ∃ before, pos = before + 1 := ⟨pos - 1, by omega⟩
  have joined : isWordAt text before = true := by
    rcases place with digits | letters
    · exact (lies.digit_at (by omega) (by omega)).2
    · exact (lies.letter_at (by omega) (by omega)).1
  rw [is_edge_between joined word] at opens
  cases opens

/-- Where a word can be read from an edge on, a unit stands. -/
theorem reads_unit (only : DurationText text total slot) (opens : isEdge text pos = true)
    (reads : ReadsAt text pos word.toList) (plain : IsPlain word) :
    ∃ i < total, pos = (slot i).gap + 1 := by
  have letter := reads.is_word_at plain.2 (List.length_pos_iff.mpr plain.1)
  obtain ⟨i, known, digits | unit⟩ := only.word_opens opens letter
  · subst digits
    have digit := ((only.lies i known).digit_at (Nat.le_refl _) (slot i).start_lt_gap).1
    obtain ⟨c, here, foreign⟩ := foreign_of_reads reads plain.2 _ (Nat.le_refl _)
      (Nat.lt_add_of_pos_right (List.length_pos_iff.mpr plain.1))
    exact absurd digit (not_digit_of_foreign here foreign).1
  · exact ⟨i, known, unit⟩

/-- The only words that stand in the text are the units of its parts. -/
theorem stands_unit (only : DurationText text total slot) (stands : StandsAt text pos word)
    (plain : IsPlain word) : ∃ i < total, pos = (slot i).gap + 1 ∧ word = (slot i).grain.unit := by
  obtain ⟨i, known, rfl⟩ := only.reads_unit stands.opens stands.reads plain
  exact ⟨i, known, rfl, stands.unique (only.lies i known).unit plain (unit_plain _)⟩

/-! Gaps. -/

/-- No gap starts at a letter or a digit. -/
theorem gap_end_word (only : DurationText text total slot) (word : isWordAt text pos = true) :
    Text.gapEnd text pos = pos := by
  obtain ⟨c, here, letter⟩ := exists_of_is_word_at word
  have solid : durationChars.all (fun c => !Text.isWordChar c || !Text.isBlank c && c != ',') =
      true := by
    decide
  have known := List.all_eq_true.mp solid c (only.chars c (Array.mem_of_getElem? here))
  simp only [letter, Bool.not_true, Bool.false_or, Bool.and_eq_true, Bool.not_eq_true',
    bne_iff_ne] at known
  exact gap_end_solid here known.1 known.2

theorem gap_end_gap (only : DurationText text total slot) (known : i < total) :
    Text.gapEnd text (slot i).gap = (slot i).gap + 1 := by
  have lies := only.lies i known
  rw [gap_end_blank lies.space (by decide)]
  exact only.gap_end_word (lies.letter_at (Nat.lt_succ_self _) (slot i).gap_lt_stop).1

theorem gap_end_stop (only : DurationText text total slot) (more : i + 1 < total) :
    Text.gapEnd text (slot i).stop = (slot (i + 1)).start := by
  obtain ⟨space, start⟩ := only.next i more
  rw [gap_end_blank space (by decide), ← start]
  exact only.gap_end_word
    ((only.lies (i + 1) more).digit_at (Nat.le_refl _) (slot (i + 1)).start_lt_gap).2

theorem gap_end_last (only : DurationText text total slot) (ends : i + 1 = total) :
    Text.gapEnd text (slot i).stop = text.size := by
  have range := gap_end_range text (slot i).stop
  have last := only.last i ends
  omega

end DurationText

end Reckon.English

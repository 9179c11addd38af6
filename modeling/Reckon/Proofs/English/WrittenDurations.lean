import Mathlib
import Reckon.Proofs.English.Cardinals
import Reckon.Proofs.English.DurationTexts

/-!
# Durations in writing

A duration is written part by part: a count in digits, a space and a unit in the plural, with single
spaces between the parts. So it is a text of counted units, and the length of what stands before a
part is the place of the part.
-/

set_option autoImplicit false

namespace Reckon.English

open Forest
open Pattern hiding some

/-! Texts. -/

def phrase (part : Grain × Nat) : List Char :=
  (toString part.2).toList ++ ' ' :: part.1.unit.toList

def writtenDuration (parts : List (Grain × Nat)) : List Char :=
  [' '].intercalate (parts.map phrase)

/-- The part of a number, at its place: each part before it takes up its phrase and a space. -/
def slotOf (parts : List (Grain × Nat)) (i : Nat) : Slot where
  grain := (parts.getD i (.second, 0)).1
  count := (parts.getD i (.second, 0)).2
  start := ((parts.take i).map fun part => (phrase part).length + 1).sum

/-! Written durations are such texts. -/

section Writing

variable {α : Type}

theorem intercalate_cons (sep x : List α) (rest : List (List α)) :
    sep.intercalate (x :: rest) = x ++ rest.flatMap (sep ++ ·) := by
  induction rest generalizing x with
  | nil => simp
  | cons y rest ih => rw [List.intercalate_cons_cons, ih, List.flatMap_cons]; simp

theorem intercalate_split (sep : List α) (xs : List (List α)) {i : Nat} (inside : i < xs.length) :
    sep.intercalate xs = (xs.take i).flatMap (· ++ sep) ++ xs[i] ++
      (xs.drop (i + 1)).flatMap (sep ++ ·) := by
  induction xs generalizing i with
  | nil => simp at inside
  | cons x rest ih =>
      cases i with
      | zero => simp [intercalate_cons]
      | succ i =>
          have later : i < rest.length := by simpa using inside
          have some : rest ≠ [] := List.ne_nil_of_length_pos (by omega)
          rw [List.intercalate_cons_of_ne_nil some, ih later]
          simp

theorem phrase_eq (part : Grain × Nat) :
    phrase part = Nat.toDigits 10 part.2 ++ ' ' :: part.1.unit.toList := by
  rw [phrase, show toString part.2 = part.2.repr from rfl, Nat.toList_repr]

theorem chars_between_middle (pre cs post : List Char) :
    charsBetween (pre ++ cs ++ post).toArray pre.length (pre.length + cs.length) = cs := by
  simp [charsBetween]

theorem Slot.stop_eq (x : Slot) : x.stop = x.start + (phrase (x.grain, x.count)).length := by
  rw [stop, gap, phrase_eq]
  simp
  omega

theorem lies_in_append (pre post : List Char) (x : Slot) (start : x.start = pre.length)
    (after : ∀ c ∈ post.head?, Text.isWordChar c = false) :
    x.LiesIn (pre ++ phrase (x.grain, x.count) ++ post).toArray := by
  have whole : pre ++ phrase (x.grain, x.count) ++ post =
      pre ++ Nat.toDigits 10 x.count ++ [' '] ++ x.grain.unit.toList ++ post := by
    simp [phrase_eq]
  have gap : x.gap + 1 = (pre ++ Nat.toDigits 10 x.count ++ [' ']).length := by
    simp [Slot.gap, start, Nat.add_assoc]
  rw [whole]
  constructor
  case digits =>
    rw [Slot.gap, start]
    simpa using chars_between_middle pre (Nat.toDigits 10 x.count)
      (' ' :: (x.grain.unit.toList ++ post))
  case space =>
    rw [Slot.gap, start]
    simp
  case unit =>
    rw [gap]
    exact stands_at_append _ post (unit_plain x.grain) (by simp; decide) after
  case name =>
    rw [Slot.stop, gap]
    exact chars_between_middle _ _ _

variable {parts : List (Grain × Nat)} {i : Nat}

theorem slot_of_part (inside : i < parts.length) :
    ((slotOf parts i).grain, (slotOf parts i).count) = parts[i] := by
  simp [slotOf, inside]

theorem written_duration_split (inside : i < parts.length) :
    writtenDuration parts = (parts.take i).flatMap (fun part => phrase part ++ [' ']) ++
      phrase parts[i] ++ (parts.drop (i + 1)).flatMap (fun part => ' ' :: phrase part) := by
  rw [writtenDuration, intercalate_split [' '] (parts.map phrase) (by simpa using inside)]
  simp [← List.map_take, ← List.map_drop, List.flatMap_map]

theorem length_before (parts : List (Grain × Nat)) (i : Nat) :
    ((parts.take i).flatMap fun part => phrase part ++ [' ']).length = (slotOf parts i).start := by
  simp [List.length_flatMap, slotOf]

theorem written_duration_lies (inside : i < parts.length) :
    (slotOf parts i).LiesIn (writtenDuration parts).toArray := by
  rw [written_duration_split inside, ← slot_of_part inside]
  apply lies_in_append _ _ _ (length_before parts i).symm
  cases parts.drop (i + 1) with
  | nil => simp
  | cons part rest => simp; decide

theorem slot_of_next (inside : i + 1 < parts.length) :
    (writtenDuration parts)[(slotOf parts i).stop]? = some ' ' ∧
      (slotOf parts (i + 1)).start = (slotOf parts i).stop + 1 := by
  have here : i < parts.length := by omega
  rw [Slot.stop_eq, slot_of_part here]
  constructor
  · obtain ⟨part, rest, more⟩ := List.exists_cons_of_length_pos
      (show 0 < (parts.drop (i + 1)).length by simp; omega)
    rw [written_duration_split here, more, ← length_before parts i, ← List.length_append]
    simp
  · simp only [slotOf, List.map_take]
    rw [List.sum_take_succ _ _ (by simpa using here), List.getElem_map]
    omega

theorem slot_of_last (ends : i + 1 = parts.length) :
    (slotOf parts i).stop = (writtenDuration parts).length := by
  have here : i < parts.length := by omega
  rw [Slot.stop_eq, slot_of_part here, written_duration_split here, ← length_before parts i, ends]
  simp

theorem mem_duration_chars_of_phrase (part : Grain × Nat) :
    ∀ c ∈ phrase part, c ∈ durationChars := by
  have units : ∀ g : Grain, g.unit.toList ⊆ durationChars := by
    intro g
    cases g <;> decide
  have digits : ∀ c : Char, c.isDigit = true → c ∈ durationChars := by
    intro c digit
    have range : 48 ≤ c.toNat ∧ c.toNat ≤ 57 := by
      simpa [Char.isDigit, UInt32.le_iff_toNat_le] using digit
    have all : ∀ n ≤ 57, 48 ≤ n → Char.ofNat n ∈ durationChars := by decide
    rw [← Char.ofNat_toNat c]
    exact all c.toNat range.2 range.1
  intro c member
  rw [phrase_eq, List.mem_append, List.mem_cons] at member
  rcases member with digit | rfl | letter
  · exact digits c (Nat.isDigit_of_mem_toDigits (by decide) (by decide) digit)
  · decide
  · exact units part.1 letter

theorem mem_duration_chars_of_written : ∀ c ∈ writtenDuration parts, c ∈ durationChars := by
  intro c member
  rw [writtenDuration] at member
  cases parts with
  | nil => simp at member
  | cons part rest =>
      rw [List.map_cons, intercalate_cons, List.mem_append, List.mem_flatMap] at member
      rcases member with first | ⟨chars, listed, later⟩
      · exact mem_duration_chars_of_phrase part c first
      · obtain ⟨other, -, rfl⟩ := List.mem_map.mp listed
        rcases List.mem_append.mp later with space | inside
        · rw [List.mem_singleton.mp space]
          decide
        · exact mem_duration_chars_of_phrase other c inside

/-- A written duration is a text of counted units. -/
theorem duration_text_written (some : parts ≠ []) :
    DurationText (writtenDuration parts).toArray parts.length (slotOf parts) where
  chars := by simpa using mem_duration_chars_of_written
  nonempty := List.length_pos_iff.mpr some
  lies := fun i inside => written_duration_lies inside
  first := rfl
  next := fun i inside => by simpa using slot_of_next inside
  last := fun i ends => by simpa using slot_of_last ends

end Writing

end Reckon.English

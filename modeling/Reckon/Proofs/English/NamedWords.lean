import Reckon.Proofs.English.NumberTexts

/-!
# Number words by name

A letter outside ASCII that folds to a letter of a word leaves a trace when it is lowered, and a
word with such a trace is read as no number. So the words that a text reads as numbers are the
listed ones, with the numbers they name.
-/

set_option autoImplicit false

namespace Reckon.English

open Forest
open Pattern hiding some

/-! Traces of letters outside ASCII. -/

/-- What a letter outside ASCII that folds to one of ASCII may leave when it is lowered: the long s,
and the dot above that a capital i may carry. -/
def isTrace (c : Char) : Bool :=
  c.toNat == 0x17F || c.toNat == 0x307

/-- Readings that give the words for units and tens their usual numbers, and read no word with a
trace of a letter outside ASCII. -/
structure Readings.Exact (readings : Readings) : Prop where
  usual : readings.Usual
  foreign : ∀ word : String, word.toList.any isTrace = true → readings.number word = none

theorem usual_readings_exact : usualReadings.Exact := by
  refine ⟨usual_readings_usual, fun word traced => ?_⟩
  have untraced : ∀ row ∈ units ++ tens, row.1.toList.any isTrace = false := by decide
  change lookUp (units ++ tens) word = none
  rw [lookUp, Option.map_eq_none_iff, List.find?_eq_none]
  intro row listed same
  rw [← beq_iff_eq.mp same, untraced row listed] at traced
  cases traced

section Lowering

variable {text : Array Char} {pos : Nat} {cs : List Char} {letter c : Char}

theorem lower_char_of_letter (lower : letter.isLower = true)
    (stands : CharClass.matchesLetter letter c = true) :
    Text.lowerChar c = [letter] ∨ (Text.lowerChar c).any isTrace = true := by
  rcases matches_letter_cases stands with same | folds
  · have code := code_of_letter lower stands
    have range := to_nat_of_is_lower lower
    left
    rcases code with small | large | other
    · rw [Text.lowerChar, if_neg (by omega), if_neg (by omega), same]
    · rw [Text.lowerChar, if_neg (by omega), if_neg (by omega), same]
    · rw [to_lower_of_large (by omega)] at same
      rw [same] at other
      omega
  · rcases folds_to_large folds with n | n | n
    · right
      rw [Text.lowerChar, if_pos n]
      decide
    · right
      rw [Text.lowerChar, if_neg (by omega), if_neg (by omega), to_lower_of_large (by omega)]
      simp [isTrace, n]
    · left
      have same : letter = 'k' := folds_to_injective folds (by rw [n]; rfl)
      rw [Text.lowerChar, if_neg (by omega), if_pos n, same]

theorem lower_of_reads (reads : ReadsAt text pos cs) (lower : ∀ c ∈ cs, c.isLower = true) :
    Text.lower (charsBetween text pos (pos + cs.length)) = cs ∨
      (Text.lower (charsBetween text pos (pos + cs.length))).any isTrace = true := by
  induction cs generalizing pos with
  | nil =>
      left
      rw [List.length_nil, Nat.add_zero, chars_between_self]
      rfl
  | cons letter cs ih =>
      obtain ⟨⟨c, here, accepted⟩, later⟩ := reads
      have small := lower letter List.mem_cons_self
      rw [accepts_literal_class small] at accepted
      have rest := ih later fun d member => lower d (List.mem_cons_of_mem _ member)
      rw [List.length_cons, Nat.add_comm cs.length, ← Nat.add_assoc,
        chars_between_append text (Nat.le_succ pos) (Nat.le_add_right _ _), chars_between_one here,
        List.singleton_append, Text.lower, List.flatMap_cons, ← Text.lower, List.any_append]
      rcases lower_char_of_letter small accepted with same | traced
      · rcases rest with others | others
        · left
          rw [same, others, List.singleton_append]
        · right
          rw [others, Bool.or_true]
      · right
        rw [traced, Bool.true_or]

end Lowering

/-! Words by name. -/

structure NamedAt (text : Array Char) (pos : Nat) (w : Word) (stop : Nat) : Prop where
  named : ∃ name, (name, w) ∈ vocabulary ∧ StandsAt text pos name ∧ stop = pos + name.toList.length

section Names

variable {readings : Readings} {text : Array Char} {pos stop : Nat} {w : Word} {m : Match}
  {word : String} {n : NumberValue}

theorem lexicon_named {entry : List String × (List (Finding Value) → Produced)}
    (usual : readings.Usual) (belongs : entry ∈ Numbers.lexicon readings) (listed : word ∈ entry.1)
    (spelled : lowered m.content = word) (ran : entry.2 [.text m] = .ok (some (.number w.number))) :
    (word, w) ∈ vocabulary := by
  have same : ∀ {v : Word}, entry.2 [.text m] = .ok (some (.number v.number)) → v = w := by
    intro v made
    rw [ran] at made
    injection made with value
    injection value with number
    injection number with number
    exact (Word.number_injective number).symm
  simp only [Numbers.lexicon, List.mem_cons, List.not_mem_nil, or_false] at belongs
  rcases belongs with rfl | rfl | rfl
  · rcases List.mem_cons.mp listed with rfl | unit
    · rw [← same (v := .plain 0 false) (by simp only [Numbers.unit, if_pos spelled]; rfl)]
      exact .head _
    · obtain ⟨row, known, rfl⟩ := List.mem_map.mp unit
      rw [← same (unit_names usual known spelled)]
      refine List.mem_append_left _ (List.mem_append_left _ (List.mem_cons_of_mem _ ?_))
      exact List.mem_map_of_mem known
  · obtain ⟨row, known, rfl⟩ := List.mem_map.mp listed
    rw [← same (ten_names usual known spelled)]
    exact List.mem_append_left _ (List.mem_append_right _ (List.mem_map_of_mem known))
  · obtain ⟨row, known, rfl⟩ := List.mem_map.mp listed
    have large : ∀ row ∈ powers, ∃ large, (row.1, Word.power row.2 large) ∈ vocabulary := by
      simp only [powers, List.forall_mem_cons]
      exact ⟨⟨by decide, by decide⟩, ⟨by decide, by decide⟩, ⟨by decide, by decide⟩,
        ⟨by decide, by decide⟩, by simp⟩
    obtain ⟨least, named⟩ := large row known
    rwa [← same (power_names known least spelled)]

theorem listed_of_entry_of {β : Type} {table : List (String × β)} {entry : β}
    (found : entryOf table word = .ok entry) : (word, entry) ∈ table := by
  unfold entryOf lookUp at found
  split at found
  · rename_i value listed
    cases found
    obtain ⟨row, here, rfl⟩ := Option.map_eq_some_iff.mp listed
    have same : row.1 = word := by simpa using List.find?_some here
    rw [← same]
    exact List.mem_of_find?_eq_some here
  · cases found

theorem untraced_of_lexicon {entry : List String × (List (Finding Value) → Produced)}
    (exact : readings.Exact) (belongs : entry ∈ Numbers.lexicon readings)
    (ran : entry.2 [.text m] = .ok (some (.number n))) :
    (Text.lower m.content).any isTrace = false := by
  have untraced : ∀ {name : String}, lowered m.content = name → name.toList.any isTrace = false →
      (Text.lower m.content).any isTrace = false := by
    intro name same plain
    rwa [← same, lowered, String.toList_ofList] at plain
  by_contra traced
  rw [Bool.not_eq_false] at traced
  have unread : readings.number (lowered m.content) = none := by
    apply exact.foreign
    rwa [lowered, String.toList_ofList]
  have other : ∀ name : String, name.toList.any isTrace = false → lowered m.content ≠ name := by
    intro name plain same
    rw [untraced same plain] at traced
    cases traced
  simp only [Numbers.lexicon, List.mem_cons, List.not_mem_nil, or_false] at belongs
  rcases belongs with rfl | rfl | rfl
  · simp only [Numbers.unit, if_neg (other "zero" (by decide)), unread] at ran
    cases ran
  · simp only [Numbers.ten, Numbers.respelled, if_neg (other "fourty" (by decide)), unread] at ran
    cases ran
  · obtain ⟨e, found, -⟩ := (Sequencing.bind_ok_iff _ _ _).mp ran
    have untracedPowers : ∀ row ∈ powers, row.1.toList.any isTrace = false := by decide
    exact other _ (untracedPowers _ (listed_of_entry_of found)) rfl

/-- What is read as a number word is a listed one, for the number it names. -/
theorem WordAt.named (exact : readings.Exact) (here : WordAt readings text pos w stop) :
    NamedAt text pos w stop := by
  obtain ⟨entry, belongs, m, found, reached, ran⟩ := here.listed
  obtain ⟨word, listed, stands, start, last⟩ := match_at_whole_word found
  have plain := Numbers.lexicon_plain readings entry belongs word listed
  have content : m.content = charsBetween text pos (pos + word.toList.length) := by
    rw [(match_at_range text _ pos m found).2.2.2, start, last]
  have spelled : lowered m.content = word := by
    rcases lower_of_reads stands.reads plain.2 with same | traced
    · rw [lowered, content, same, String.ofList_toList]
    · rw [← content, untraced_of_lexicon exact belongs ran] at traced
      cases traced
  exact ⟨word, lexicon_named exact.usual belongs listed spelled ran, stands, by omega⟩

end Names

end Reckon.English

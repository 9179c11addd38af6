import Reckon.Proofs.Pattern.Alphabet
import Reckon.Proofs.Pattern.Ways

/-!
# Runs of digits and what stands around them

What a repetition does, by what one pass of it keeps; what look-arounds say of the characters beside
a place; and, from both, where the digits of a match lie.
-/

set_option autoImplicit false

namespace Reckon.Pattern

variable {text : Array Char} {p : Pattern} {cursor next : Cursor}

/-! Repetitions. -/

theorem times_keeps {P : Cursor → Prop} {step : Cursor → List Cursor}
    (keeps : ∀ c, P c → ∀ d ∈ step c, P d) (n : Nat) (first : P cursor) :
    ∀ next ∈ times step n cursor, P next := by
  induction n generalizing cursor with
  | zero =>
      intro next member
      rw [times, List.mem_singleton] at member
      rw [member]
      exact first
  | succ n ih =>
      intro next member
      obtain ⟨middle, stepped, later⟩ := List.mem_flatMap.mp member
      exact ih (keeps cursor first middle stepped) next later

theorem up_to_keeps {P : Cursor → Prop} {step : Cursor → List Cursor}
    (keeps : ∀ c, P c → ∀ d ∈ step c, P d) (fuel : Nat) (most : Option Nat) (first : P cursor) :
    ∀ next ∈ upTo step fuel most cursor, P next := by
  induction fuel generalizing most cursor with
  | zero =>
      intro next member
      rw [upTo, List.mem_singleton] at member
      rw [member]
      exact first
  | succ fuel ih =>
      intro next member
      rw [upTo] at member
      rcases List.mem_append.mp member with further | here
      · split at further
        · cases further
        · obtain ⟨middle, stepped, later⟩ := List.mem_flatMap.mp further
          have kept := keeps cursor first middle stepped
          split at later
          · rw [List.mem_singleton.mp later]
            exact kept
          · exact ih _ kept next later
      · rw [List.mem_singleton.mp here]
        exact first

/-- What each pass of a repetition keeps holds after all of them. -/
theorem repeated_keeps {P : Cursor → Prop} {least : Nat} {most : Option Nat}
    (keeps : ∀ c, P c → ∀ d ∈ p.run text c, P d) (first : P cursor)
    (reached : next ∈ (repeated p least most).run text cursor) : P next := by
  obtain ⟨middle, required, more⟩ := List.mem_flatMap.mp reached
  exact up_to_keeps keeps _ _ (times_keeps keeps least first middle required) next more

theorem run_moves (reached : next ∈ p.run text cursor) (solid : p.mayBeEmpty = false) :
    cursor.pos < next.pos := by
  have advances := run_spells text p cursor next reached
  have forward := advances.forward
  by_contra still
  have same : cursor.pos = next.pos := by omega
  have spells := advances.spells
  rw [same, chars_between_self] at spells
  have empty := spells.may_be_empty rfl
  rw [solid] at empty
  cases empty

/-- A pattern that has to match something has no way where the text does not go on as it begins. -/
theorem run_eq_nil_of_opens (solid : p.mayBeEmpty = false)
    (refused : ∀ c, text[cursor.pos]? = Option.some c → ∀ cls ∈ p.openings, cls.accepts c = false) :
    p.run text cursor = [] := by
  rw [List.eq_nil_iff_forall_not_mem]
  intro next reached
  have moved := run_moves reached solid
  have inside := (run_reaches text p cursor next reached).2
  obtain ⟨c, here⟩ : ∃ c, text[cursor.pos]? = Option.some c :=
    ⟨_, Array.getElem?_eq_getElem (by omega)⟩
  have head := head?_chars_between moved (show next.pos ≤ text.size by omega)
  obtain ⟨cls, listed, accepted⟩ :=
    (run_spells text p cursor next reached).spells.opens (head.trans here)
  rw [refused c here cls listed] at accepted
  cases accepted

/-! Look-arounds. -/

theorem mem_run_not_ahead :
    next ∈ (notAhead p).run text cursor ↔ p.run text cursor = [] ∧ next = cursor := by
  rw [run, ← List.isEmpty_iff]
  split
  · rename_i none
    simp [none]
  · rename_i some
    simp [some]

theorem mem_run_not_behind {classes : List CharClass} :
    next ∈ (notBehind classes).run text cursor ↔
      precededBy text cursor.pos classes = false ∧ next = cursor := by
  rw [run]
  split
  · rename_i before
    simp [before]
  · rename_i clear
    simp [clear]

def ClassAt (text : Array Char) (place : Nat) (cls : CharClass) : Prop :=
  ∃ c, text[place]? = Option.some c ∧ cls.accepts c = true

abbrev DigitAt (text : Array Char) (place : Nat) : Prop :=
  ClassAt text place .digit

theorem not_class_at_of_run {cls : CharClass} (none : (one cls).run text cursor = []) :
    ¬ClassAt text cursor.pos cls := by
  intro here
  have reached := (mem_run_one text cls cursor _).mpr ⟨here, rfl⟩
  rw [none] at reached
  cases reached

theorem not_both_of_run {first second : CharClass}
    (none : (seq (one first) (one second)).run text cursor = []) :
    ¬(ClassAt text cursor.pos first ∧ ClassAt text (cursor.pos + 1) second) := by
  rintro ⟨here, there⟩
  have reached := List.mem_flatMap.mpr
    ⟨_, (mem_run_one text first cursor _).mpr ⟨here, rfl⟩,
      (mem_run_one text second _ _).mpr ⟨there, rfl⟩⟩
  rw [show List.flatMap _ _ = (seq (one first) (one second)).run text cursor from rfl, none]
    at reached
  cases reached

theorem not_class_at_before {cls : CharClass} {place : Nat}
    (clear : precededBy text (place + 1) [cls] = false) : ¬ClassAt text place cls := by
  rintro ⟨c, here, accepted⟩
  simp [precededBy, here, accepted] at clear

theorem not_both_before {first second : CharClass} {place : Nat}
    (clear : precededBy text (place + 2) [first, second] = false) :
    ¬(ClassAt text place first ∧ ClassAt text (place + 1) second) := by
  rintro ⟨⟨c, here, accepted⟩, d, there, acceptedToo⟩
  simp [precededBy, here, there, accepted, acceptedToo, List.zipIdx] at clear

/-- Classes do not precede a place if the last of them refuses the character before it. -/
theorem not_preceded_by {place : Nat} {cls : CharClass} (others : List CharClass)
    (refused : ∀ before, before + 1 = place → ¬ClassAt text before cls) :
    precededBy text place (others ++ [cls]) = false := by
  rw [Bool.eq_false_iff]
  intro preceded
  rw [precededBy, Bool.and_eq_true, decide_eq_true_iff, List.length_append, List.length_singleton]
    at preceded
  obtain ⟨room, all⟩ := preceded
  rw [List.zipIdx_append, List.all_append, Bool.and_eq_true] at all
  have last := all.2
  simp only [List.zipIdx_singleton, List.all_cons, List.all_nil, Bool.and_true] at last
  split at last
  · rename_i c here
    exact refused _ (by omega) ⟨c, here, last⟩
  · cases last

/-! Digits. -/

def DigitsFrom (text : Array Char) (start stop : Nat) : Prop :=
  ∀ place, start ≤ place → place < stop → DigitAt text place

theorem DigitsFrom.append {start middle stop : Nat} (first : DigitsFrom text start middle)
    (second : DigitsFrom text middle stop) : DigitsFrom text start stop := by
  intro place after before
  by_cases early : place < middle
  · exact first place after early
  · exact second place (by omega) before

theorem digits_from_step {start : Nat} (digits : DigitsFrom text start cursor.pos)
    (reached : next ∈ digit.run text cursor) :
    DigitsFrom text start next.pos ∧ next.pos = cursor.pos + 1 := by
  obtain ⟨here, rfl⟩ := (mem_run_one text .digit cursor next).mp reached
  refine ⟨fun place after before => ?_, rfl⟩
  simp only at before
  by_cases last : place = cursor.pos
  · rw [last]
    exact here
  · exact digits place after (by omega)

/-- Repeated digits are all there is between the ends of a repetition. -/
theorem digits_from_repeated {least : Nat} {most : Option Nat}
    (reached : next ∈ (repeated digit least most).run text cursor) :
    DigitsFrom text cursor.pos next.pos := by
  apply repeated_keeps (P := fun c => DigitsFrom text cursor.pos c.pos) _ _ reached
  · intro c digits d stepped
    exact (digits_from_step digits stepped).1
  · intro place after before
    omega

theorem mem_up_to_digits {stop fuel : Nat} (digits : DigitsFrom text cursor.pos stop)
    (order : cursor.pos ≤ stop) (enough : stop - cursor.pos ≤ fuel) :
    { cursor with pos := stop } ∈ upTo (fun c => digit.run text c) fuel none cursor := by
  induction fuel generalizing cursor with
  | zero =>
      obtain rfl : cursor.pos = stop := by omega
      exact List.mem_singleton_self _
  | succ fuel ih =>
      rw [upTo]
      apply List.mem_append.mpr
      rcases Nat.lt_or_eq_of_le order with before | rfl
      · have here := digits cursor.pos (Nat.le_refl _) before
        have later : { cursor with pos := stop } ∈ upTo (fun c => digit.run text c) fuel none
            { cursor with pos := cursor.pos + 1 } :=
          ih (fun place after => digits place (by simp only at after; omega)) before
            (by simp only; omega)
        left
        rw [if_neg (by simp)]
        refine List.mem_flatMap.mpr ⟨_, (mem_run_one text .digit cursor _).mpr ⟨here, rfl⟩, ?_⟩
        rw [if_neg (by simp)]
        exact later
      · exact .inr (List.mem_singleton_self _)

/-- Repeated digits can be read up to any place behind the first. -/
theorem mem_run_digits {stop : Nat} (digits : DigitsFrom text cursor.pos stop)
    (order : cursor.pos < stop) (inside : stop ≤ text.size) :
    { cursor with pos := stop } ∈ (Pattern.some digit).run text cursor := by
  have here := digits cursor.pos (Nat.le_refl _) order
  have first : { cursor with pos := cursor.pos + 1 } ∈
      times (fun c => digit.run text c) 1 cursor :=
    List.mem_flatMap.mpr ⟨_, (mem_run_one text .digit cursor _).mpr ⟨here, rfl⟩,
      List.mem_singleton_self _⟩
  have later : DigitsFrom text (cursor.pos + 1) stop := fun place after => digits place (by omega)
  exact List.mem_flatMap.mpr ⟨_, first, mem_up_to_digits later order (by simp only; omega)⟩

/-! Sequences. -/

/-- The parts of a sequence match one after the other. -/
theorem mem_run_sequence {first : Pattern} {rest : List Pattern} :
    next ∈ (sequence (first :: rest)).run text cursor ↔
      ∃ middle ∈ first.run text cursor, next ∈ (sequence rest).run text middle := by
  rw [run_sequence_cons, List.mem_flatMap]

theorem mem_run_sequence_nil : next ∈ (sequence []).run text cursor ↔ next = cursor := by
  rw [sequence, run, List.mem_singleton]

theorem mem_run_sequence_not_ahead {rest : List Pattern} :
    next ∈ (sequence (notAhead p :: rest)).run text cursor ↔
      p.run text cursor = [] ∧ next ∈ (sequence rest).run text cursor := by
  simp [mem_run_sequence, mem_run_not_ahead, and_assoc]

theorem run_any_of_eq_nil {ps : List Pattern} (none : (anyOf ps).run text cursor = []) :
    ∀ q ∈ ps, q.run text cursor = [] := by
  induction ps with
  | nil => simp
  | cons q rest ih =>
      rw [run_any_of_cons, List.append_eq_nil_iff] at none
      exact List.forall_mem_cons.mpr ⟨none.1, ih none.2⟩

/-- A match is a way to run its pattern. -/
theorem reached_of_match_at {pos : Nat} {m : Match} (found : p.matchAt text pos = Option.some m) :
    ∃ next ∈ p.run text ⟨pos, []⟩, next.pos = m.stop := by
  obtain ⟨next, reached, rfl⟩ := matches_at_of_match_at found
  exact ⟨next, reached, rfl⟩

end Reckon.Pattern

import Mathlib
import Reckon.Proofs.English.DurationBounds
import Reckon.Proofs.English.WrittenDurations
import Reckon.Proofs.Parsing.OneExpression

/-!
# Written durations are read back

A written duration is a text of counted units. If its units go from coarse to fine, the rules build
one duration over the whole text, by each bracketing of its parts, and the forest is not cut short.
Durations over one range have one period. So whatever scores the trees get, the text is parsed as
the duration and nothing else.
-/

set_option autoImplicit false

namespace Reckon.English

open Forest Sequencing

/-! The parts of a text by their places. -/

section Places

variable {parts : List (Grain × Nat)}

theorem period_from_slot_of (parts : List (Grain × Nat)) :
    periodFrom (slotOf parts) 0 parts.length =
      parts.map fun part => (part.1, (part.2 : Int)) := by
  apply List.ext_getElem
  · simp [periodFrom]
  · intro i inside _
    have known : i < parts.length := by simpa [periodFrom] using inside
    simp [periodFrom, ← slot_of_part known]

theorem finer_slot_of (finer : parts.Pairwise fun a b => b.1.size < a.1.size) (i j : Nat)
    (order : i < j) (inside : j < parts.length) :
    (slotOf parts j).grain.size < (slotOf parts i).grain.size := by
  have less := List.pairwise_iff_getElem.mp finer i j (by omega) inside order
  rwa [← slot_of_part inside, ← slot_of_part (order.trans inside)] at less

theorem small_slot_of {bound : Nat} (small : ∀ part ∈ parts, part.2 < bound) (i : Nat)
    (inside : i < parts.length) : (slotOf parts i).count < bound := by
  have less := small parts[i] (List.getElem_mem inside)
  rwa [← slot_of_part inside] at less

end Places

theorem HasRole.exists_duration {total : Nat} {slot : Nat → Slot} {node : Node Value}
    (known : HasRole total slot node) (dimension : node.value.dimension? = some .duration) :
    ∃ period, node.value = .duration { period } := by
  have bare := known.bare
  generalize node.value = v at bare dimension
  cases bare with
  | duration period => exact ⟨period, rfl⟩
  | _ => cases dimension

/-- A written duration is read back: for any scores and any context, the best readings of durations
are one mention, which spans the text and has just its parts, in their order. -/
theorem written_duration_reads_back (p : Parser) (readings : Readings)
    (english : p.rules = ruleSetWith readings) (parts : List (Grain × Nat)) (some : parts ≠ [])
    (finer : parts.Pairwise fun a b => b.1.size < a.1.size)
    (small : ∀ part ∈ parts, part.2 < 10 ^ 308) (context : Context) :
    ∃ m, p.parse (writtenDuration parts).toArray context [.duration] .bestOnly = .ok ([m], []) ∧
      m.LiesAt (writtenDuration parts).toArray 0 (writtenDuration parts).length ∧
      m.output = .duration (parts.map fun part => (part.1, (part.2 : Int))) .exact := by
  have only := duration_text_written some
  have distinct : p.rules.ruleNames.Nodup := by
    rw [english]
    exact rules_with_distinct readings
  have rules : p.rules.rules = rulesWith readings := by rw [english]; rfl
  obtain ⟨entries, grown⟩ := only.apply_whole readings (small_slot_of small) (finer_slot_of finer)
  rw [← english] at grown
  have derived := RuleSet.apply_sound grown
  have positive := List.length_pos_iff.mpr some
  obtain ⟨node, derives, chars, value⟩ := only.derives_parts rules
    (fun i inside => digits_readable (small_slot_of small i inside)) (finer_slot_of finer)
    (show 0 + (parts.length - 1) < parts.length by omega)
  rw [Nat.zero_add, only.first, only.last _ (Nat.sub_add_cancel positive)] at chars
  rw [Nat.sub_add_cancel positive, period_from_slot_of] at value
  obtain ⟨e, inside, rfl⟩ := RuleSet.apply_complete distinct grown derives
  apply Parser.parse_whole distinct grown
  · intro d member
    exact Option.isSome_iff_exists.mpr (derives_dimension rules (derived d member))
  · exact ⟨e, inside, chars, by rw [value]; rfl, by rw [value]; rfl⟩
  · intro d member place dimension
    obtain ⟨period, held⟩ :=
      (only.derives_known rules (derived d member)).exists_duration dimension
    have same := derives_period_unique rules (derived d member) derives held value
      (place.trans chars.symm)
    have lasting : ¬(parts.map fun part => (part.1, (part.2 : Int))).isEmpty = true := by
      simpa using some
    obtain rfl : period = parts.map fun part => (part.1, (part.2 : Int)) := same
    rw [Value.resolve, if_pos dimension, held, Value.read, if_neg lasting]

theorem years_weeks_hours_read_back :
    [(Grain.year, 2), (Grain.week, 0), (Grain.hour, 36)] ≠ [] ∧
      [(Grain.year, 2), (Grain.week, 0), (Grain.hour, 36)].Pairwise
        (fun a b => b.1.size < a.1.size) ∧
      (∀ part ∈ [(Grain.year, 2), (Grain.week, 0), (Grain.hour, 36)], part.2 < 10 ^ 308) ∧
      ∃ m, Parser.unweighted.parse "2 years 0 weeks 36 hours".toList.toArray Context.training
        [.duration] .bestOnly = .ok ([m], []) ∧
        m.LiesAt "2 years 0 weeks 36 hours".toList.toArray 0 24 ∧
        m.output = .duration [(.year, 2), (.week, 0), (.hour, 36)] .exact := by
  have some : [(Grain.year, 2), (Grain.week, 0), (Grain.hour, 36)] ≠ [] := by decide
  have finer : [(Grain.year, 2), (Grain.week, 0), (Grain.hour, 36)].Pairwise
      (fun a b => b.1.size < a.1.size) := by
    decide
  have small : ∀ part ∈ [(Grain.year, 2), (Grain.week, 0), (Grain.hour, 36)],
      part.2 < 10 ^ 308 := by
    decide +kernel
  have spelled : writtenDuration [(Grain.year, 2), (Grain.week, 0), (Grain.hour, 36)] =
      "2 years 0 weeks 36 hours".toList := by
    decide
  have reads := written_duration_reads_back Parser.unweighted usualReadings rfl _ some finer small
    Context.training
  rw [spelled] at reads
  exact ⟨some, finer, small, reads⟩

end Reckon.English

import Mathlib
import Reckon.English.Rules
import Reckon.Proofs.English.Times
import Reckon.Proofs.Forest.Listed

/-!
# English forests hold well-formed values

Whatever reads number words, amounts and dates for the grammar, if the dates exist then every value
in a forest is well-formed, and resolving it can fail only for reasons that lie in the context or in
the range of dates.
-/

set_option autoImplicit false

namespace Reckon.English

open Forest Sequencing

theorem rules_with_keep {readings : Readings}
    (dates : ∀ cs d, readings.date cs = some d → d.isValid = true) :
    ∀ r ∈ rulesWith readings, Keeps Value.WellFormed r := by
  intro r member
  simp only [rulesWith, Datetimes.rules, List.mem_append] at member
  rcases member with
    (((((number | ordinal) | temperature) | percentage) | money) | duration) | (day | time) | pair
  · exact Numbers.rules_keep readings r number
  · exact Ordinals.rules_keep readings r ordinal
  · exact Measures.rules_keep r (List.mem_append_left _ temperature)
  · exact Measures.rules_keep r (List.mem_append_right _ percentage)
  · exact Money.rules_keep readings r money
  · exact Durations.rules_keep r duration
  · exact Datetimes.day_rules_keep dates r day
  · exact Datetimes.time_rules_keep r time
  · exact Datetimes.combined_rules_keep r pair

/-- Every node of an English forest has a well-formed value. Hence resolving it under the kind of
its dimension, in any context, never fails for a coercion, a nested interval, an unknown form, a
time on something other than a day, or a date without parts. -/
theorem forest_well_formed (readings : Readings)
    (dates : ∀ cs d, readings.date cs = some d → d.isValid = true) (text : Array Char)
    (entries : List (Entry Value)) (notices : List Notice)
    (ran : (ruleSetWith readings).apply text = .ok (entries, notices)) :
    ∀ e ∈ entries, e.node.value.WellFormed ∧
      ∀ kind, e.node.value.dimension?.bind Kind.ofDimension? = some kind → ∀ context failure,
        e.node.value.resolve kind context = .error failure →
          (∀ fault, failure ≠ .coercion fault) ∧ failure ≠ .resolution .nestedInterval ∧
            (∀ typeName, failure ≠ .resolution (.unknownForm typeName)) ∧
            (∀ grain, failure ≠ .resolution (.notADay grain)) ∧
            failure ≠ .resolution .emptyCalendar := by
  intro e member
  have derives := RuleSet.apply_sound ran e member
  have wellFormed : e.node.value.WellFormed := derives_keeps (rules_with_keep dates) derives
  refine ⟨wellFormed, ?_⟩
  intro kind known context failure failed
  obtain ⟨dimension, here, reported⟩ := Option.bind_eq_some_iff.mp known
  rw [(Kind.of_dimension?_eq_some_iff dimension kind).mp reported] at here
  have plain := Value.resolve_blameless wellFormed here context failure failed
  refine ⟨?_, ?_, ?_, ?_, ?_⟩
  · intro fault same
    rw [same] at plain
    cases plain
  · intro same
    rw [same] at plain
    cases plain
  · intro typeName same
    rw [same] at plain
    cases plain
  · intro grain same
    rw [same] at plain
    cases plain
  · intro same
    rw [same] at plain
    cases plain

theorem seven_pm_well_formed : ∃ entries notices,
    (ruleSetWith usualReadings).apply #['7', ' ', 'p', 'm'] = .ok (entries, notices) ∧
      entries.length = 4 ∧ ∀ e ∈ entries, e.node.value.WellFormed ∧
        ∀ kind, e.node.value.dimension?.bind Kind.ofDimension? = some kind → ∀ context failure,
          e.node.value.resolve kind context = .error failure →
            (∀ fault, failure ≠ .coercion fault) ∧ failure ≠ .resolution .nestedInterval ∧
              (∀ typeName, failure ≠ .resolution (.unknownForm typeName)) ∧
              (∀ grain, failure ≠ .resolution (.notADay grain)) ∧
              failure ≠ .resolution .emptyCalendar := by
  have counted : ((ruleSetWith usualReadings).apply #['7', ' ', 'p', 'm']).toOption.map
      (fun found => found.1.length) = some 4 := by
    rw [RuleSet.apply_eq_listed]
    decide +kernel
  obtain ⟨⟨entries, notices⟩, ran, four⟩ := exists_ok_of_map counted
  have dates : ∀ cs d, usualReadings.date cs = some d → d.isValid = true := by
    intro cs d found
    exact Datetimes.read_slash_date_valid found
  exact ⟨entries, notices, ran, four,
    forest_well_formed usualReadings dates #['7', ' ', 'p', 'm'] entries notices ran⟩

end Reckon.English

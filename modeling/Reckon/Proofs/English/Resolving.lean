import Reckon.Proofs.English.Conversions
import Reckon.Proofs.Forest.Listed
import Reckon.Proofs.Parsing.Dropping

/-!
# What a parse of English makes of candidates that do not resolve

Only times fail to resolve: with a resolution fault, or because they leave the range of dates. The
former only drops the candidate; the latter ends the text, although other candidates of it may
resolve.
-/

set_option autoImplicit false

namespace Reckon.English

open Sequencing

theorem failure_of_resolve {v : Value} (wellFormed : v.WellFormed) (converted : v.Converted)
    {kind : Kind} (own : v.dimension? = some kind.dimension) {c : Context} {failure : Failure}
    (failed : v.resolve kind c = .error failure) :
    kind = .datetime ∧ (failure = .outOfRange ∨ ∃ fault, failure = .resolution fault) := by
  constructor
  · by_contra timeless
    obtain ⟨output, resolved⟩ := Value.resolve_converted wellFormed converted own timeless c
    rw [resolved] at failed
    cases failed
  · have excusable := Value.resolve_excused wellFormed own c failure failed
    rcases failure.is_excusable_iff.mp excusable with range | ⟨fault, same, -⟩
    · exact .inl range
    · exact .inr ⟨fault, same⟩

/-- What becomes of the candidates of a text. Only times may fail to resolve, with a resolution
fault or for leaving the range of dates. -/
structure Settled (p : Parser) (text : Array Char) (context : Context) (order : List Kind)
    (mode : Selection) (found : List Candidate) (notices : List Notice) : Prop where
  failures : ∀ c ∈ found, ∀ failure, c.node.value.resolve c.kind context = .error failure →
    c.kind = .datetime ∧ (failure = .outOfRange ∨ ∃ fault, failure = .resolution fault)
  /-- As long as none leaves the range, the parse mentions those that resolve and has one notice for
  each of the others. -/
  returns : (∀ c ∈ found, c.node.value.resolve c.kind context ≠ .error .outOfRange) →
    p.parse text context order mode =
      .ok ((found.filterMap (Parser.mention? context)).mergeSort (Parser.reportedBefore order),
        notices ++ found.filterMap (Parser.drop? context text))
  breaks : (∃ c ∈ found, c.node.value.resolve c.kind context = .error .outOfRange) →
    p.parse text context order mode = .error .outOfRange

/-- Every English forest has candidates. The parse of them returns, and drops those that do not
resolve, unless one of them leaves the range of dates. -/
theorem parse_settles (p : Parser) (readings : Readings)
    (english : p.rules.rules = rulesWith readings)
    (dates : ∀ cs d, readings.date cs = some d → d.isValid = true) (text : Array Char)
    (entries : List (Entry Value)) (notices : List Notice)
    (grown : p.rules.apply text = .ok (entries, notices)) (context : Context)
    (order : List Kind) (mode : Selection) :
    ∃ found, p.candidates text order mode = .ok (found, notices) ∧
      Settled p text context order mode found notices := by
  have derived := RuleSet.apply_sound grown
  have distinct : p.rules.ruleNames.Nodup := by
    rw [RuleSet.ruleNames, english]
    exact rules_with_distinct readings
  have keep : ∀ r ∈ p.rules.rules, Forest.Keeps Value.WellFormed r := by
    rw [english]
    exact rules_with_keep dates
  have convert : ∀ r ∈ p.rules.rules, Forest.Keeps Value.Converted r := by
    rw [english]
    exact rules_with_convert readings
  obtain ⟨found, candidates, source⟩ := Parser.candidates_return distinct grown
    (fun e member => Option.isSome_iff_exists.mpr (derives_dimension english (derived e member)))
    order mode
  have failures : ∀ c ∈ found, ∀ failure,
      c.node.value.resolve c.kind context = .error failure →
        c.kind = .datetime ∧ (failure = .outOfRange ∨ ∃ fault, failure = .resolution fault) := by
    intro c member failure failed
    obtain ⟨⟨e, inside, node⟩, own⟩ := source c member
    have wellFormed := Forest.derives_keeps keep (derived e inside)
    have converted := Forest.derives_keeps convert (derived e inside)
    rw [node] at wellFormed converted
    exact failure_of_resolve wellFormed converted own failed
  refine ⟨found, candidates, failures, ?_, ?_⟩
  · intro ranged
    apply Parser.parse_of_droppable candidates
    intro c member failure failed
    rcases (failures c member failure failed).2 with rfl | ⟨fault, rfl⟩
    · exact absurd failed (ranged c member)
    · rfl
  · rintro ⟨c, member, failed⟩
    have severe : ¬Parser.Droppable context c := by
      intro droppable
      exact absurd (droppable .outOfRange failed) (by decide)
    obtain ⟨d, inside, failure, failedHere, undroppable, ran⟩ :=
      Parser.parse_of_not_droppable candidates member severe
    rcases (failures d inside failure failedHere).2 with rfl | ⟨fault, rfl⟩
    · exact ran
    · cases undroppable

theorem feb_thirty_settles : ∃ entries notices found,
    Parser.unweighted.rules.apply "feb 30".toList.toArray = .ok (entries, notices) ∧
      entries.length = 4 ∧
      Parser.unweighted.candidates "feb 30".toList.toArray [.datetime] .bestOnly =
        .ok (found, notices) ∧
      Settled Parser.unweighted "feb 30".toList.toArray Context.training [.datetime] .bestOnly found
        notices := by
  have counted : (Parser.unweighted.rules.apply "feb 30".toList.toArray).toOption.map
      (fun forest => forest.1.length) = some 4 := by
    rw [RuleSet.apply_eq_listed]
    decide +kernel
  obtain ⟨⟨entries, notices⟩, ran, four⟩ := exists_ok_of_map counted
  have dates : ∀ cs d, usualReadings.date cs = some d → d.isValid = true := by
    intro cs d found
    exact Datetimes.read_slash_date_valid found
  obtain ⟨found, candidates, settled⟩ := parse_settles Parser.unweighted usualReadings rfl dates
    "feb 30".toList.toArray entries notices ran Context.training [.datetime] .bestOnly
  exact ⟨entries, notices, found, ran, four, candidates, settled⟩

def lastDay : Context :=
  { now := ⟨Zone.utc, LocalTime.make ⟨9999, 12, 31⟩ 12 0 0 0, false⟩ }

/-- A candidate that leaves the range of dates ends the parse, although the rules return a
forest. -/
theorem tomorrow_ends_parse :
    (∃ entries notices,
        Parser.unweighted.rules.apply "tomorrow".toList.toArray = .ok (entries, notices)) ∧
      Parser.unweighted.parse "tomorrow".toList.toArray lastDay [.datetime] .bestOnly =
        .error .outOfRange := by
  constructor
  · have ran : (Parser.unweighted.rules.apply "tomorrow".toList.toArray).toOption.map
        (fun forest => forest.1.length) = some 1 := by
      rw [RuleSet.apply_eq_listed]
      decide +kernel
    obtain ⟨⟨entries, notices⟩, returned, -⟩ := exists_ok_of_map ran
    exact ⟨entries, notices, returned⟩
  · cbv

end Reckon.English

import Reckon.Proofs.English.Cardinals
import Reckon.Proofs.English.Quantities
import Reckon.Proofs.Forest.Listed
import Reckon.Proofs.Parsing.OneExpression

/-!
# Spelled-out numbers are read back

The spelling of a number is a text of number words, so the rules do not fail on it; and as the
spelling denotes the number, they build it over the whole text. Numbers over one range are equal.
So unless the forest is cut short, the text is parsed as this number and nothing else.
-/

set_option autoImplicit false

namespace Reckon.English

open Forest Sequencing

section Spelled

variable {rs : RuleSet Value} {readings : Readings} {text : Array Char} {node : Node Value}

theorem number_of_dimension (english : rs.rules = rulesWith readings)
    (derives : Derives rs text node) (known : node.value.dimension? = some .number) :
    ∃ v, node.value = .number v := by
  cases derives with
  | intro _ r member built parts =>
      rw [english] at member
      have number := builds_number member built known
      obtain ⟨findings, ⟨start, stop, v, -, made, -, shape⟩, -⟩ := built
      have wellFormed := Numbers.rules_made readings r number findings v made
      rw [shape] at known ⊢
      cases v with
      | number v => exact ⟨v, rfl⟩
      | unknown typeName dimension => exact wellFormed.elim
      | _ => cases known

/-- The spelling of a number is a text of number words, over which the rules build the number. -/
theorem spell_spoken (usual : readings.Usual) (english : rs.rules = rulesWith readings) {n : Nat}
    (small : n < 10 ^ 12) : NumberText (spell n).toArray ∧
      ∃ g, Spoken rs (spell n).toArray 0 (spell n).length n g := by
  obtain ⟨g, counted⟩ := spelling_denotes usual english small
  rw [spell]
  cases spelled : spelling n with
  | nil => exact absurd spelled counted.nonempty
  | cons t ts =>
      rw [spelled] at counted
      have only := number_text_written counted.known
      have laid : (written (t :: ts)).drop 1 = t.word.toList ++ written ts := rfl
      rw [laid]
      exact ⟨only, g, counted.spoken _ only 0 _ (lies_written counted.known)⟩

end Spelled

/-- A number below a million millions is read back from its spelling. The rules return a forest, in
which no other number covers the whole spelling; unless it is cut short, it holds the number there,
and best readings of numbers are one mention of it. -/
theorem spell_reads_back (p : Parser) (readings : Readings)
    (english : p.rules.rules = rulesWith readings) (usual : readings.Usual) (n : Nat)
    (small : n < 10 ^ 12) :
    ∃ entries notices, p.rules.apply (spell n).toArray = .ok (entries, notices) ∧
      (∀ e ∈ entries, ∀ v, e.node.value = .number v → e.node.chars = ⟨0, (spell n).length⟩ →
        v.value = .int n) ∧
      (notices = [] →
        (∃ e ∈ entries, ∃ v, e.node.value = .number v ∧
          e.node.chars = ⟨0, (spell n).length⟩) ∧
        ∀ context, ∃ m, p.parse (spell n).toArray context [.number] .bestOnly = .ok ([m], []) ∧
          m.LiesAt (spell n).toArray 0 (spell n).length ∧ m.output = .integer n) := by
  obtain ⟨only, g, spoken⟩ := spell_spoken usual english small
  have distinct : p.rules.ruleNames.Nodup := by
    rw [RuleSet.ruleNames, english]
    exact rules_with_distinct readings
  obtain ⟨⟨entries, notices⟩, grown⟩ :=
    RuleSet.apply_returns ((only.manageable usual english).unfailing english)
  have derived := RuleSet.apply_sound grown
  obtain ⟨node, bare, derives, chars, value⟩ := spoken.built
  have agree : ∀ e ∈ entries, ∀ v, e.node.value = .number v →
      e.node.chars = ⟨0, (spell n).length⟩ → v.value = .int n := by
    intro e member v held place
    exact derives_number_unique english (derived e member) derives held value
      (by rw [place, chars]; rfl)
  refine ⟨entries, notices, grown, agree, ?_⟩
  rintro rfl
  obtain ⟨e, inside, rfl⟩ := RuleSet.apply_complete distinct grown derives
  refine ⟨⟨e, inside, _, value, chars⟩, fun context => ?_⟩
  apply Parser.parse_whole distinct grown
  · intro d member
    exact Option.isSome_iff_exists.mpr (derives_dimension english (derived d member))
  · exact ⟨e, inside, chars, by rw [value]; rfl, by rw [value]; rfl⟩
  · intro d member place known
    obtain ⟨v, held⟩ := number_of_dimension english (derived d member) known
    have whole := agree d member v held place
    rw [Value.resolve, if_pos known, held, Value.read, whole]
    rfl

theorem two_hundred_six_reads_back : 206 < 10 ^ 12 ∧
    ∃ entries notices, Parser.unweighted.rules.apply (spell 206).toArray = .ok (entries, notices) ∧
      notices = [] ∧
      (∀ e ∈ entries, ∀ v, e.node.value = .number v → e.node.chars = ⟨0, (spell 206).length⟩ →
        v.value = .int 206) ∧
      (∃ e ∈ entries, ∃ v, e.node.value = .number v ∧ e.node.chars = ⟨0, (spell 206).length⟩) ∧
      ∀ context, ∃ m,
        Parser.unweighted.parse (spell 206).toArray context [.number] .bestOnly = .ok ([m], []) ∧
          m.LiesAt (spell 206).toArray 0 (spell 206).length ∧ m.output = .integer 206 := by
  have complete : (Parser.unweighted.rules.apply (spell 206).toArray).toOption.map (·.2) =
      some [] := by
    rw [RuleSet.apply_eq_listed]
    decide +kernel
  obtain ⟨entries, notices, grown, agree, reads⟩ := spell_reads_back Parser.unweighted
    usualReadings rfl usual_readings_usual 206 (by norm_num)
  rw [grown] at complete
  obtain rfl : notices = [] := Option.some.inj complete
  exact ⟨by norm_num, entries, [], grown, rfl, agree, reads rfl⟩

end Reckon.English

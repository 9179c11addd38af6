import Reckon.Proofs.English.ReadingBack
import Reckon.Proofs.Forest.Heights
import Reckon.Proofs.Forest.Listed

/-!
# English trees are low

Every English rule pays for the level it adds. Most have two items that cover something; the others
make a temperature or a time of a bare number, and no rule does so again. So no tree is higher than
its text is long, but for one level, and the rules use up what a text has to offer in as many rounds
as it has characters, and two more.
-/

set_option autoImplicit false

namespace Reckon.English

open Forest Sequencing

/-- The levels by which a tree can be higher than it is wide: temperatures and times may stand for a
bare number. -/
def spareOf : Dimension → Nat
  | .temperature | .datetime => 1
  | _ => 0

@[simp]
theorem spare_of_eq (d : Dimension) :
    spareOf d = if d = .temperature ∨ d = .datetime then 1 else 0 := by
  cases d <;> rfl

def spare (v : Value) : Nat :=
  (v.dimension?.map spareOf).getD 0

theorem spare_of_le (d : Dimension) : spareOf d ≤ 1 := by
  cases d <;> decide

theorem spare_le (v : Value) : spare v ≤ 1 := by
  rw [spare]
  cases v.dimension? with
  | none => simp
  | some d => exact spare_of_le d

theorem spare_eq {v : Value} {d : Dimension} (known : v.dimension? = some d) :
    spare v = spareOf d := by
  rw [spare, known]
  rfl

/-- An item that takes values with so many spare levels at most. -/
def Takes (most : Nat) : Item Value → Prop
  | .text _ => True
  | .value test => ∀ w, test w = .ok true → spare w ≤ most

@[simp]
theorem takes_text (most : Nat) (p : Pattern) : Takes most (.text p) := trivial

theorem takes_one (item : Item Value) : Takes 1 item := by
  cases item with
  | text p => trivial
  | value test => exact fun w _ => spare_le w

@[simp]
theorem takes_of {most : Nat} {d : Dimension} (low : spareOf d ≤ most) (test : d.Holds → Bool) :
    Takes most (Test.of d test) := by
  intro w passed
  obtain ⟨held, rfl, -⟩ := holds_of d (Except.ok.inj passed)
  rw [spare_eq (Value.dimension?_of held)]
  exact low

/-! How a rule pays for its level. -/

section Paying

variable {r : Rule Value} {d : Dimension}

theorem lengthens_of_takes {most : Nat} (yields : Yields d r.produce)
    (takes : ∀ item ∈ r.items, Takes most item) (room : most + 2 ≤ r.solidCount + spareOf d) :
    Lengthens spare r := by
  intro text findings v fits made w member
  obtain ⟨test, inside, passed, -⟩ := passed_of_fits fits member
  have low : spare w ≤ most := takes _ inside w passed
  rw [spare_eq (yields findings v made)]
  omega

theorem lengthens_lexical (lexical : r.isLexical = true) : Lengthens spare r := by
  intro text findings v fits made w member
  obtain ⟨test, inside, -, -⟩ := passed_of_fits fits member
  cases List.all_eq_true.mp lexical _ inside

/-- A rule that takes neither temperatures nor times needs two items that cover something, or has to
make one of these. -/
theorem lengthens_plain (yields : Yields d r.produce) (takes : ∀ item ∈ r.items, Takes 0 item)
    (room : 2 ≤ r.solidCount + spareOf d) : Lengthens spare r :=
  lengthens_of_takes yields takes (by omega)

theorem lengthens_spared (yields : Yields d r.produce) (level : spareOf d = 1)
    (room : 2 ≤ r.solidCount) : Lengthens spare r :=
  lengthens_of_takes yields (fun item _ => takes_one item) (by omega)

end Paying

theorem Numbers.rules_lengthen (readings : Readings) :
    ∀ r ∈ rules readings, Lengthens spare r := by
  simp only [rules, List.forall_mem_cons]
  exact ⟨lengthens_lexical rfl, lengthens_lexical rfl, lengthens_lexical rfl, lengthens_lexical rfl,
    lengthens_lexical rfl, lengthens_lexical rfl,
    lengthens_plain negate_yields (by simp) (by decide),
    lengthens_plain multiply_yields (by simp) (by decide),
    lengthens_plain sum_yields (by simp) (by decide), by simp⟩

theorem Ordinals.rules_lengthen (readings : Readings) :
    ∀ r ∈ rules readings, Lengthens spare r := by
  simp only [rules, List.forall_mem_cons]
  exact ⟨lengthens_lexical rfl, lengthens_lexical rfl,
    lengthens_plain compound_yields (by simp) (by decide), by simp⟩

theorem Measures.rules_lengthen :
    ∀ r ∈ temperatureRules ++ percentageRules, Lengthens spare r := by
  simp only [temperatureRules, percentageRules, List.cons_append, List.nil_append,
    List.forall_mem_cons]
  exact ⟨lengthens_plain bare_temperature_yields (by simp) (by decide),
    lengthens_spared degrees_yields rfl (by decide), lengthens_spared scaled_yields rfl (by decide),
    lengthens_spared scaled_yields rfl (by decide),
    lengthens_plain percentage_yields (by simp) (by decide), by simp⟩

theorem Money.rules_lengthen (readings : Readings) :
    ∀ r ∈ rules readings, Lengthens spare r := by
  simp only [rules, List.forall_mem_cons]
  exact ⟨lengthens_lexical rfl, lengthens_lexical rfl,
    lengthens_plain amount_then_currency_yields (by simp) (by decide),
    lengthens_plain code_then_amount_yields (by simp) (by decide),
    lengthens_plain approximately_yields (by simp) (by decide), by simp⟩

theorem Durations.rules_lengthen : ∀ r ∈ rules, Lengthens spare r := by
  simp only [rules, List.forall_mem_cons]
  exact ⟨lengthens_lexical rfl, lengthens_plain counted_yields (by simp) (by decide),
    lengthens_plain single_yields (by simp) (by decide), lengthens_lexical rfl,
    lengthens_plain composite_yields (by simp) (by decide),
    lengthens_plain approximately_yields (by simp) (by decide), by simp⟩

namespace Datetimes

theorem day_rules_lengthen (readings : Readings) :
    ∀ r ∈ dayRules readings, Lengthens spare r := by
  simp only [dayRules, List.forall_mem_cons]
  exact ⟨lengthens_lexical rfl, lengthens_lexical rfl, lengthens_lexical rfl, lengthens_lexical rfl,
    lengthens_spared directed_day_of_week_exact.yields rfl (by decide), lengthens_lexical rfl,
    lengthens_spared the_ordinal_day_exact.yields rfl (by decide),
    lengthens_spared month_day_exact.yields rfl (by decide),
    lengthens_spared day_month_exact.yields rfl (by decide),
    lengthens_spared with_year_exact.yields rfl (by decide),
    lengthens_spared with_year_exact.yields rfl (by decide),
    lengthens_spared in_year_exact.yields rfl (by decide),
    lengthens_plain bare_year_exact.yields (by simp [year]) (by decide), lengthens_lexical rfl,
    lengthens_lexical rfl, lengthens_spared weekday_date_exact.yields rfl (by decide), by simp⟩

theorem time_rules_lengthen : ∀ r ∈ timeRules, Lengthens spare r := by
  simp only [timeRules, List.forall_mem_cons]
  exact ⟨lengthens_lexical rfl, lengthens_spared half_day_exact.yields rfl (by decide),
    lengthens_lexical rfl, lengthens_lexical rfl,
    lengthens_spared at_time_exact.yields rfl (by decide),
    lengthens_spared o_clock_exact.yields rfl (by decide),
    lengthens_plain bare_hour_exact.yields (by simp) (by decide), by simp⟩

theorem combined_rules_lengthen : ∀ r ∈ combinedRules, Lengthens spare r := by
  simp only [combinedRules, List.forall_mem_cons]
  exact ⟨lengthens_spared date_at_time_exact.yields rfl (by decide),
    lengthens_spared time_on_date_exact.yields rfl (by decide),
    lengthens_spared in_duration_shifts.yields rfl (by decide),
    lengthens_spared (duration_then_shifts _).yields rfl (by decide),
    lengthens_spared (duration_then_shifts _).yields rfl (by decide),
    lengthens_spared range_exact.yields rfl (by decide),
    lengthens_spared range_exact.yields rfl (by decide),
    by simp⟩

end Datetimes

theorem rules_with_lengthen (readings : Readings) : ∀ r ∈ rulesWith readings,
    Lengthens spare r := by
  have measures := Measures.rules_lengthen
  rw [List.forall_mem_append] at measures
  simp only [rulesWith, Datetimes.rules, List.forall_mem_append]
  exact ⟨⟨⟨⟨⟨⟨Numbers.rules_lengthen readings, Ordinals.rules_lengthen readings⟩, measures.1⟩,
    measures.2⟩, Money.rules_lengthen readings⟩, Durations.rules_lengthen⟩,
    ⟨Datetimes.day_rules_lengthen readings, Datetimes.time_rules_lengthen⟩,
    Datetimes.combined_rules_lengthen⟩

section Growth

variable {rs : RuleSet Value} {readings : Readings} {text : Array Char} {node : Node Value}

theorem derives_height (english : rs.rules = rulesWith readings)
    (derives : Derives rs text node) : node.height ≤ node.width + spare node.value := by
  have lengthens : ∀ r ∈ rs.rules, Lengthens spare r := by
    rw [english]
    exact rules_with_lengthen readings
  exact derives_height_le lengthens derives

end Growth

/-- Trees are at most one level higher than the text is long, and numbers no higher than they are
wide themselves. So where no rule fails and there are two rounds more than characters, growth ends
by itself, with all trees that there are, unless it meets the bound on nodes. -/
theorem growth_ends (rs : RuleSet Value) (readings : Readings)
    (english : rs.rules = rulesWith readings) (text : Array Char) :
    (∀ node, Derives rs text node → node.height ≤ text.size + 1 ∧
      (node.value.dimension? = some .number →
        (node.height : Int) ≤ node.chars.stop - node.chars.start)) ∧
    (Unfailing rs text → text.size + 2 ≤ rs.maxRounds →
      ∃ entries notices, rs.apply text = .ok (entries, notices) ∧
        (notices = [] ∧ (∀ node, node ∈ entries.map (·.node) ↔ Derives rs text node) ∨
          notices = [.nodeCap rs.maxNodes] ∧ rs.maxNodes ≤ entries.length)) := by
  have low : ∀ node, Derives rs text node → node.height ≤ text.size + 1 := by
    intro node derives
    obtain ⟨start, stop, covers⟩ := derives_covers derives
    have height := derives_height english derives
    have level := spare_le node.value
    have width := covers.width
    have inside := covers.inside
    omega
  constructor
  · refine fun node derives => ⟨low node derives, fun number => ?_⟩
    obtain ⟨start, stop, covers⟩ := derives_covers derives
    have height := derives_height english derives
    have width := covers.width
    have level : spare node.value = 0 := spare_eq number
    rw [covers.chars]
    simp only
    omega
  · intro unfailing rounds
    have distinct : rs.ruleNames.Nodup := by
      rw [RuleSet.ruleNames, english]
      exact rules_with_distinct readings
    exact RuleSet.apply_within distinct unfailing low (by omega)

/-- The sixteen usual rounds are enough for the ten characters of "twenty-one". -/
theorem twenty_one_growth_ends : (ruleSetWith usualReadings).rules = rulesWith usualReadings ∧
    Unfailing (ruleSetWith usualReadings) (spell 21).toArray ∧
    ((spell 21).toArray.size : Int) + 2 ≤ (ruleSetWith usualReadings).maxRounds ∧
    ∃ entries, (ruleSetWith usualReadings).apply (spell 21).toArray = .ok (entries, []) ∧
      (∀ node, node ∈ entries.map (·.node) ↔
        Derives (ruleSetWith usualReadings) (spell 21).toArray node) ∧
      ∀ node ∈ entries.map (·.node), node.height ≤ 11 := by
  have english : (ruleSetWith usualReadings).rules = rulesWith usualReadings := rfl
  have only := (spell_spoken usual_readings_usual english (by norm_num : 21 < 10 ^ 12)).1
  have unfailing := (only.manageable usual_readings_usual english).unfailing english
  have short : (spell 21).toArray.size = 10 := by
    cbv
  have rounds : ((spell 21).toArray.size : Int) + 2 ≤ (ruleSetWith usualReadings).maxRounds := by
    rw [short]
    decide
  have few : ((ruleSetWith usualReadings).apply (spell 21).toArray).toOption.map (·.2) =
      some [] := by
    rw [RuleSet.apply_eq_listed]
    decide +kernel
  obtain ⟨low, ends⟩ :=
    growth_ends (ruleSetWith usualReadings) usualReadings english (spell 21).toArray
  obtain ⟨entries, notices, grown, settled⟩ := ends unfailing rounds
  rw [grown] at few
  obtain rfl : notices = [] := Option.some.inj few
  rcases settled with ⟨-, complete⟩ | ⟨cut, -⟩
  · refine ⟨english, unfailing, rounds, entries, grown, complete, fun node member => ?_⟩
    have height := (low node ((complete node).mp member)).1
    rwa [short] at height
  · cases cut

end Reckon.English

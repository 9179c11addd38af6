import Reckon.Proofs.English.Dimensions
import Reckon.Proofs.English.Findings
import Reckon.Proofs.Pattern.Alphabet

/-!
# Where the rules of English may fail

Tests never fail, and most productions give a result whatever they are given. The others look up
words in tables, read digits, or turn numbers into floating-point ones. So the rules do not fail on
a text in which these look-ups, readings and conversions succeed (`Manageable`).
-/

set_option autoImplicit false

namespace Reckon.English

open Forest Sequencing

/-- A production that gives a result, if only that it declines. -/
def Returns (result : Produced) : Prop :=
  ∃ outcome, result = .ok outcome

@[simp]
theorem returns_ok (outcome : Option Value) : Returns (.ok outcome) :=
  ⟨outcome, rfl⟩

@[simp]
theorem returns_made (v : Value) : Returns (made v) :=
  ⟨some v, rfl⟩

@[simp]
theorem returns_declined : Returns declined :=
  ⟨none, rfl⟩

theorem returns_bind {α : Type} {first : Except Failure α} {next : α → Produced}
    (head : ∃ a, first = .ok a) (tail : ∀ a, Returns (next a)) : Returns (first >>= next) := by
  obtain ⟨a, rfl⟩ := head
  exact tail a

def Total (produce : List (Finding Value) → Produced) : Prop :=
  ∀ findings, Returns (produce findings)

/-! Tests. -/

def Decides : Item Value → Prop
  | .text _ => True
  | .value test => ∀ v, ∃ verdict, test v = .ok verdict

theorem decides_text (p : Pattern) : Decides (.text p) :=
  trivial

theorem decides_holding (test : Value → Bool) : Decides (.holding test) :=
  fun v => ⟨test v, rfl⟩

theorem rules_with_decide (readings : Readings) :
    ∀ r ∈ rulesWith readings, ∀ item ∈ r.items, Decides item := by
  simp only [rulesWith, Numbers.rules, Ordinals.rules, Measures.temperatureRules,
    Measures.percentageRules, Money.rules, Durations.rules, Datetimes.rules, Datetimes.dayRules,
    Datetimes.timeRules, Datetimes.combinedRules, List.forall_mem_append, List.forall_mem_cons,
    List.not_mem_nil, false_implies, implies_true, decides_text, Test.of,
    Datetimes.plainWeekday, Datetimes.onCalendar, Datetimes.dayOfMonth, Datetimes.year,
    Datetimes.onClock, Datetimes.dayForm, Datetimes.timeForm, Datetimes.pointForm,
    decides_holding, and_self]

theorem rules_with_filled (readings : Readings) : ∀ r ∈ rulesWith readings, r.items ≠ [] := by
  simp [rulesWith, Numbers.rules, Ordinals.rules, Measures.temperatureRules,
    Measures.percentageRules, Money.rules, Durations.rules, Datetimes.rules, Datetimes.dayRules,
    Datetimes.timeRules, Datetimes.combinedRules]

/-! Productions that always give a result. -/

namespace Numbers

theorem unit_total (readings : Readings) : Total (unit readings) := by
  intro findings
  fun_cases unit readings findings <;> simp

theorem ten_total (readings : Readings) : Total (ten readings) := by
  intro findings
  fun_cases ten readings findings <;> simp

theorem decimal_total : Total decimal := by
  intro findings
  fun_cases decimal findings <;> simp

theorem negate_total : Total negate := by
  intro findings
  fun_cases negate findings <;> simp

theorem multiply_total : Total multiply := by
  intro findings
  fun_cases multiply findings <;> simp

theorem sum_total : Total sum := by
  intro findings
  fun_cases sum findings <;> simp

end Numbers

namespace Ordinals

theorem word_total (readings : Readings) : Total (word readings) := by
  intro findings
  fun_cases word readings findings <;> simp

theorem compound_total : Total compound := by
  intro findings
  fun_cases compound findings <;> simp

end Ordinals

namespace Measures

theorem degrees_total : Total degrees := by
  intro findings
  fun_cases degrees findings <;> simp

theorem scaled_total : Total scaled := by
  intro findings
  fun_cases scaled findings <;> simp

end Measures

namespace Money

theorem currency_total : Total currency := by
  intro findings
  fun_cases currency findings <;> simp

theorem price_total (readings : Readings) : Total (price readings) := by
  intro findings
  fun_cases price readings findings <;> simp

theorem approximately_total : Total approximately := by
  intro findings
  fun_cases approximately findings <;> simp

end Money

namespace Durations

theorem counted_total : Total counted := by
  intro findings
  fun_cases counted findings <;> simp

theorem single_total : Total single := by
  intro findings
  fun_cases single findings <;> simp

theorem half_hour_total : Total halfHour := by
  intro findings
  fun_cases halfHour findings <;> simp

theorem approximately_total : Total approximately := by
  intro findings
  fun_cases approximately findings <;> simp

end Durations

namespace Datetimes

theorem now_total : Total now := by
  intro findings
  simp [now]

theorem the_ordinal_day_total : Total theOrdinalDay := by
  intro findings
  fun_cases theOrdinalDay findings <;> simp

theorem month_day_total : Total monthDay := by
  intro findings
  fun_cases monthDay findings <;> simp

theorem day_month_total : Total dayMonth := by
  intro findings
  fun_cases dayMonth findings <;> simp

theorem with_year_total : Total withYear := by
  intro findings
  fun_cases withYear findings <;> simp

theorem in_year_total : Total inYear := by
  intro findings
  fun_cases inYear findings <;> simp

theorem bare_year_total : Total bareYear := by
  intro findings
  fun_cases bareYear findings <;> simp

theorem iso_date_total : Total isoDate := by
  intro findings
  fun_cases isoDate findings <;> simp

theorem slash_date_total (readings : Readings) : Total (slashDate readings) := by
  intro findings
  fun_cases slashDate readings findings <;> simp

theorem weekday_date_total : Total weekdayDate := by
  intro findings
  fun_cases weekdayDate findings <;> simp

theorem clock_total : Total clock := by
  intro findings
  fun_cases clock findings <;> simp

theorem half_day_total : Total halfDay := by
  intro findings
  fun_cases halfDay findings <;> simp

theorem noon_total : Total noon := by
  intro findings
  simp [noon]

theorem midnight_total : Total midnight := by
  intro findings
  simp [midnight]

theorem at_time_total : Total atTime := by
  intro findings
  fun_cases atTime findings <;> simp

theorem o_clock_total : Total oClock := by
  intro findings
  fun_cases oClock findings <;> simp

theorem bare_hour_total : Total bareHour := by
  intro findings
  fun_cases bareHour findings <;> simp

theorem timed_returns (date time : DatetimeValue) : Returns (timed date time) := by
  fun_cases timed date time <;> simp

theorem date_at_time_total : Total dateAtTime := by
  intro findings
  fun_cases dateAtTime findings <;> simp [timed_returns]

theorem time_on_date_total : Total timeOnDate := by
  intro findings
  fun_cases timeOnDate findings <;> simp [timed_returns]

theorem Shifts.total {produce : List (Finding Value) → Produced} (shifts : Shifts produce) :
    Total produce := by
  intro findings
  rcases shifts findings with same | ⟨d, sign, -, same⟩ <;> simp [same, shifted]

theorem range_total : Total range := by
  intro findings
  fun_cases range findings <;> simp

end Datetimes

/-! Durations have a period. -/

/-- A value that is not a duration without a period. -/
def Lasting (v : Value) : Prop :=
  ∀ d, v = .duration d → d.period ≠ []

theorem keeps_lasting {d : Dimension} {r : Rule Value} (yields : Yields d r.produce)
    (other : d ≠ .duration) : Keeps Lasting r := by
  rintro text findings v - ran period rfl
  have known := yields findings _ ran
  cases known
  exact absurd rfl other

namespace Durations

theorem counted_lasting (findings : List (Finding Value)) (v : Value)
    (ran : counted findings = .ok (some v)) : Lasting v := by
  rintro d rfl
  unfold counted at ran
  split at ran
  · split at ran
    · cases ran
      simp
    · cases ran
  · cases ran

theorem single_lasting (findings : List (Finding Value)) (v : Value)
    (ran : single findings = .ok (some v)) : Lasting v := by
  rintro d rfl
  unfold single at ran
  split at ran
  · cases ran
    simp
  · cases ran

theorem half_hour_lasting (findings : List (Finding Value)) (v : Value)
    (ran : halfHour findings = .ok (some v)) : Lasting v := by
  rintro d rfl
  unfold halfHour at ran
  split at ran
  · cases ran
    simp
  · cases ran

theorem merge_returns {a b : DurationValue} (first : a.period ≠ []) (second : b.period ≠ []) :
    ∃ merged, merge a b = .ok merged ∧ ∀ d, merged = some d → d.period ≠ [] := by
  obtain ⟨p, ps, periodA⟩ := List.exists_cons_of_ne_nil first
  obtain ⟨q, qs, periodB⟩ := List.exists_cons_of_ne_nil second
  simp only [merge, periodA, periodB, Period.coarsest?, Period.finest?]
  split
  · exact ⟨none, rfl, by simp⟩
  · exact ⟨_, rfl, by simp⟩

theorem composite_lasting {name : String} {p : Pattern} :
    Keeps Lasting
      ⟨name, [Test.duration Test.any, .text p, Test.duration Test.any], composite⟩ := by
  intro text findings v fits ran
  obtain ⟨x, y, z, same, left, middle, right⟩ := findings_three fits
  obtain ⟨a, first, -, lastingA⟩ := fits_of .duration left
  obtain ⟨m, between, -⟩ := fits_text middle
  obtain ⟨b, second, -, lastingB⟩ := fits_of .duration right
  subst same first between second
  obtain ⟨merged, joined, lasting⟩ := merge_returns (lastingA a rfl) (lastingB b rfl)
  simp only [composite, joined] at ran
  obtain ⟨d, found, rfl⟩ := Option.map_eq_some_iff.mp (Except.ok.inj ran)
  rintro e same
  cases same
  exact lasting d found

theorem approximately_lasting {name : String} {p : Pattern} :
    Keeps Lasting ⟨name, [.text p, Test.exact .duration], approximately⟩ := by
  intro text findings v fits ran
  obtain ⟨x, y, same, left, right⟩ := findings_two fits
  obtain ⟨m, first, -⟩ := fits_text left
  obtain ⟨d, second, -, lasting⟩ := fits_of .duration right
  subst same first second
  cases ran
  rintro e same
  cases same
  exact lasting d rfl

theorem rules_lasting : ∀ r ∈ rules, Keeps Lasting r := by
  simp only [rules, List.forall_mem_cons]
  exact ⟨keeps_lasting grain_yields (by decide), keeps_of_made counted_lasting,
    keeps_of_made single_lasting, keeps_of_made half_hour_lasting, composite_lasting,
    approximately_lasting, by simp⟩

end Durations

theorem rules_with_lasting (readings : Readings) :
    ∀ r ∈ rulesWith readings, Keeps Lasting r := by
  intro r member
  simp only [rulesWith, List.mem_append] at member
  rcases member with (((((number | ordinal) | temperature) | percentage) | money) | duration) | time
  · exact keeps_lasting (Numbers.rules_yield readings r number) (by decide)
  · exact keeps_lasting (Ordinals.rules_yield readings r ordinal) (by decide)
  · exact keeps_lasting (Measures.temperature_rules_yield r temperature) (by decide)
  · exact keeps_lasting (Measures.percentage_rules_yield r percentage) (by decide)
  · rcases Money.rules_yield readings r money with unit | amount
    · exact keeps_lasting unit (by decide)
    · exact keeps_lasting amount (by decide)
  · exact Durations.rules_lasting r duration
  · exact keeps_lasting (Datetimes.rules_yield readings r time) (by decide)

/-! Texts on which the rules do not fail. -/

def lookUps : List (Pattern × (List (Finding Value) → Produced)) :=
  [(Numbers.powerWord, Numbers.power), (Numbers.groupedDigits, Numbers.digits),
    (Numbers.plainDigits, Numbers.digits), (Ordinals.ordinalDigits, Ordinals.digits),
    (Durations.unitWord, Durations.grain), (Datetimes.relativeDayWords, Datetimes.relativeDay),
    (Datetimes.relativeGrainWords, Datetimes.relativeGrain),
    (Datetimes.weekdayWord, Datetimes.dayOfWeek), (Datetimes.monthWord, Datetimes.month)]

/-- What the rules look up in a text is listed, and the numbers in it are not too large. -/
structure Manageable (rs : RuleSet Value) (text : Array Char) : Prop where
  words : ∀ row ∈ lookUps, ∀ pos m, row.1.matchAt text pos = some m → Returns (row.2 [.text m])
  directions : ∀ pos m, Datetimes.directionWord.matchAt text pos = some m →
    ∃ d, entryOf directions (lowered m.content) = .ok d
  numbers : ∀ node, Derives rs text node → ∀ n, node.value = .number n →
    ∃ x, n.value.toFloat = .ok x

/-- A value of some node that the rules can build. -/
def Held (rs : RuleSet Value) (text : Array Char) (v : Value) : Prop :=
  ∃ node, Derives rs text node ∧ node.value = v

/-- A rule whose production gives a result for whatever its items find in a text. -/
def Answers (rs : RuleSet Value) (text : Array Char) (r : Rule Value) : Prop :=
  ∀ findings, List.Forall₂ (Fits text (Held rs text)) r.items findings →
    Returns (r.produce findings)

theorem lasting_of_held {rs : RuleSet Value} {readings : Readings} {text : Array Char}
    {d : DurationValue} (english : rs.rules = rulesWith readings)
    (held : Held rs text (.duration d)) : d.period ≠ [] := by
  obtain ⟨node, derives, value⟩ := held
  have keeps : ∀ r ∈ rs.rules, Keeps Lasting r := by
    rw [english]
    exact rules_with_lasting readings
  have lasting : Lasting node.value := derives_keeps keeps derives
  exact lasting d value

section Answers

variable {rs : RuleSet Value} {readings : Readings} {text : Array Char} {name : String}
  {p : Pattern}

theorem answers_of_total {r : Rule Value} (total : Total r.produce) : Answers rs text r :=
  fun findings _ => total findings

theorem Manageable.to_float (manageable : Manageable rs text) {n : NumberValue}
    (held : Held rs text (.number n)) : ∃ x, n.value.toFloat = .ok x := by
  obtain ⟨node, derives, value⟩ := held
  exact manageable.numbers node derives n value

theorem Manageable.answers_word (manageable : Manageable rs text)
    {produce : List (Finding Value) → Produced} (listed : (p, produce) ∈ lookUps) :
    Answers rs text ⟨name, [.text p], produce⟩ := by
  intro findings fits
  obtain ⟨x, rfl, only⟩ := findings_one fits
  obtain ⟨m, rfl, finds⟩ := fits_text only
  have solid : ∀ row ∈ lookUps, row.1.mayBeEmpty = false := by decide
  exact manageable.words (p, produce) listed m.start m (finds.preferred (solid _ listed))

theorem Manageable.answers_bare_temperature (manageable : Manageable rs text)
    {test : NumberValue → Bool} :
    Answers rs text ⟨name, [Test.number test], Measures.bareTemperature⟩ := by
  intro findings fits
  obtain ⟨x, rfl, only⟩ := findings_one fits
  obtain ⟨n, rfl, -, held⟩ := fits_of .number only
  exact returns_bind (manageable.to_float held) fun x => by simp

theorem Manageable.answers_percentage (manageable : Manageable rs text)
    {test : NumberValue → Bool} :
    Answers rs text ⟨name, [Test.number test, .text p], Measures.percentage⟩ := by
  intro findings fits
  obtain ⟨x, y, rfl, left, right⟩ := findings_two fits
  obtain ⟨n, rfl, -, held⟩ := fits_of .number left
  obtain ⟨m, rfl, -⟩ := fits_text right
  exact returns_bind (manageable.to_float held) fun x => by simp

theorem Manageable.answers_amount_then_currency (manageable : Manageable rs text)
    {test : NumberValue → Bool} :
    Answers rs text ⟨name, [Test.number test, Test.moneyUnit], Money.amountThenCurrency⟩ := by
  intro findings fits
  obtain ⟨x, y, rfl, left, right⟩ := findings_two fits
  obtain ⟨n, rfl, -, held⟩ := fits_of .number left
  obtain ⟨v, rfl, passed, -⟩ := fits_holding right
  cases v with
  | moneyUnit u => exact returns_bind (manageable.to_float held) fun x => by simp
  | _ => cases passed

theorem Manageable.answers_code_then_amount (manageable : Manageable rs text)
    {test : NumberValue → Bool} :
    Answers rs text ⟨name, [.text p, Test.number test], Money.codeThenAmount⟩ := by
  intro findings fits
  obtain ⟨x, y, rfl, left, right⟩ := findings_two fits
  obtain ⟨m, rfl, -⟩ := fits_text left
  obtain ⟨n, rfl, -, held⟩ := fits_of .number right
  exact returns_bind (manageable.to_float held) fun x => by simp

theorem answers_composite (english : rs.rules = rulesWith readings) :
    Answers rs text
      ⟨name, [Test.duration Test.any, .text p, Test.duration Test.any], Durations.composite⟩ := by
  intro findings fits
  obtain ⟨x, y, z, rfl, left, middle, right⟩ := findings_three fits
  obtain ⟨a, rfl, -, heldA⟩ := fits_of .duration left
  obtain ⟨m, rfl, -⟩ := fits_text middle
  obtain ⟨b, rfl, -, heldB⟩ := fits_of .duration right
  obtain ⟨merged, joined, -⟩ := Durations.merge_returns (lasting_of_held english heldA)
    (lasting_of_held english heldB)
  exact returns_bind ⟨merged, joined⟩ fun d => ⟨_, rfl⟩

theorem Manageable.answers_directed_day_of_week (manageable : Manageable rs text) :
    Answers rs text
      ⟨name, [.text Datetimes.directionWord, Datetimes.plainWeekday],
        Datetimes.directedDayOfWeek⟩ := by
  intro findings fits
  obtain ⟨x, y, rfl, left, right⟩ := findings_two fits
  obtain ⟨m, rfl, finds⟩ := fits_text left
  obtain ⟨w, rfl, -⟩ := fits_of .datetime right
  refine returns_bind (manageable.directions m.start m (finds.preferred (by decide)))
    fun direction => ?_
  split <;> simp

theorem Manageable.numbers_answer (manageable : Manageable rs text) (readings : Readings) :
    ∀ r ∈ Numbers.rules readings, Answers rs text r := by
  simp only [Numbers.rules, List.forall_mem_cons]
  exact ⟨answers_of_total (Numbers.unit_total readings),
    answers_of_total (Numbers.ten_total readings), manageable.answers_word (by simp [lookUps]),
    manageable.answers_word (by simp [lookUps]), manageable.answers_word (by simp [lookUps]),
    answers_of_total Numbers.decimal_total, answers_of_total Numbers.negate_total,
    answers_of_total Numbers.multiply_total, answers_of_total Numbers.sum_total, by simp⟩

theorem Manageable.quantities_answer (manageable : Manageable rs text) (readings : Readings) :
    ∀ r ∈ Ordinals.rules readings ++ Measures.temperatureRules ++ Measures.percentageRules ++
      Money.rules readings, Answers rs text r := by
  simp only [Ordinals.rules, Measures.temperatureRules, Measures.percentageRules, Money.rules,
    List.cons_append, List.nil_append, List.forall_mem_cons]
  exact ⟨answers_of_total (Ordinals.word_total readings),
    manageable.answers_word (by simp [lookUps]), answers_of_total Ordinals.compound_total,
    manageable.answers_bare_temperature, answers_of_total Measures.degrees_total,
    answers_of_total Measures.scaled_total, answers_of_total Measures.scaled_total,
    manageable.answers_percentage, answers_of_total Money.currency_total,
    answers_of_total (Money.price_total readings), manageable.answers_amount_then_currency,
    manageable.answers_code_then_amount, answers_of_total Money.approximately_total, by simp⟩

theorem Manageable.durations_answer (manageable : Manageable rs text)
    (english : rs.rules = rulesWith readings) : ∀ r ∈ Durations.rules, Answers rs text r := by
  simp only [Durations.rules, List.forall_mem_cons]
  exact ⟨manageable.answers_word (by simp [lookUps]), answers_of_total Durations.counted_total,
    answers_of_total Durations.single_total, answers_of_total Durations.half_hour_total,
    answers_composite english, answers_of_total Durations.approximately_total, by simp⟩

theorem Manageable.day_rules_answer (manageable : Manageable rs text) (readings : Readings) :
    ∀ r ∈ Datetimes.dayRules readings, Answers rs text r := by
  simp only [Datetimes.dayRules, List.forall_mem_cons]
  exact ⟨answers_of_total Datetimes.now_total, manageable.answers_word (by simp [lookUps]),
    manageable.answers_word (by simp [lookUps]), manageable.answers_word (by simp [lookUps]),
    manageable.answers_directed_day_of_week, manageable.answers_word (by simp [lookUps]),
    answers_of_total Datetimes.the_ordinal_day_total, answers_of_total Datetimes.month_day_total,
    answers_of_total Datetimes.day_month_total, answers_of_total Datetimes.with_year_total,
    answers_of_total Datetimes.with_year_total, answers_of_total Datetimes.in_year_total,
    answers_of_total Datetimes.bare_year_total, answers_of_total Datetimes.iso_date_total,
    answers_of_total (Datetimes.slash_date_total readings),
    answers_of_total Datetimes.weekday_date_total, by simp⟩

theorem time_rules_answer : ∀ r ∈ Datetimes.timeRules ++ Datetimes.combinedRules,
    Answers rs text r := by
  simp only [Datetimes.timeRules, Datetimes.combinedRules, List.cons_append, List.nil_append,
    List.forall_mem_cons]
  exact ⟨answers_of_total Datetimes.clock_total, answers_of_total Datetimes.half_day_total,
    answers_of_total Datetimes.noon_total, answers_of_total Datetimes.midnight_total,
    answers_of_total Datetimes.at_time_total, answers_of_total Datetimes.o_clock_total,
    answers_of_total Datetimes.bare_hour_total, answers_of_total Datetimes.date_at_time_total,
    answers_of_total Datetimes.time_on_date_total,
    answers_of_total Datetimes.in_duration_shifts.total,
    answers_of_total (Datetimes.duration_then_shifts _).total,
    answers_of_total (Datetimes.duration_then_shifts _).total,
    answers_of_total Datetimes.range_total, answers_of_total Datetimes.range_total, by simp⟩

theorem Manageable.rules_answer (manageable : Manageable rs text)
    (english : rs.rules = rulesWith readings) :
    ∀ r ∈ rulesWith readings, Answers rs text r := by
  have quantities := manageable.quantities_answer readings
  have times : ∀ r ∈ Datetimes.timeRules ++ Datetimes.combinedRules, Answers rs text r :=
    time_rules_answer
  simp only [List.forall_mem_append] at quantities times
  obtain ⟨⟨⟨ordinals, temperatures⟩, percentages⟩, amounts⟩ := quantities
  simp only [rulesWith, Datetimes.rules, List.forall_mem_append]
  exact ⟨⟨⟨⟨⟨⟨manageable.numbers_answer readings, ordinals⟩, temperatures⟩, percentages⟩, amounts⟩,
    manageable.durations_answer english⟩, ⟨manageable.day_rules_answer readings, times.1⟩, times.2⟩

/-- The rules do not fail on a manageable text. -/
theorem Manageable.unfailing (manageable : Manageable rs text)
    (english : rs.rules = rulesWith readings) : Unfailing rs text := by
  constructor
  · rw [english]
    exact rules_with_filled readings
  · intro r member test item node _
    rw [english] at member
    exact rules_with_decide readings r member (.value test) item node.value
  · intro r member start findings children stop spread derived
    rw [english] at member
    exact manageable.rules_answer english r member findings
      (spread_fits spread fun child inside => ⟨child, derived child inside, rfl⟩)

end Answers

end Reckon.English

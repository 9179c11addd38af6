import Reckon.English.Rules
import Reckon.Proofs.Forest.Preservation

/-!
# The dimension that a rule yields

Each English rule makes values of one dimension, whatever it finds. So every value of a forest has a
dimension, and a number in it was made by a rule for numbers.
-/

set_option autoImplicit false

namespace Reckon.English

open Forest

attribute [local simp] Value.dimension?

/-- What a production makes, if anything, has a property. -/
def MakesOnly (P : Value → Prop) (result : Produced) : Prop :=
  ∀ v, result = .ok (some v) → P v

section MakesOnly

variable {P : Value → Prop}

@[simp]
theorem makes_only_made (v : Value) : MakesOnly P (made v) ↔ P v := by
  constructor
  · intro makes
    exact makes v rfl
  · intro known w same
    cases same
    exact known

@[simp]
theorem makes_only_declined : MakesOnly P declined := by
  intro v same
  cases same

theorem makes_only_bind {α : Type} (first : Except Failure α) {next : α → Produced}
    (makes : ∀ a, MakesOnly P (next a)) : MakesOnly P (first >>= next) := by
  intro v ran
  cases first with
  | error failure => cases ran
  | ok a => exact makes a v ran

theorem makes_only_map {α : Type} (found : Option α) {wrap : α → Value} (known : ∀ a, P (wrap a)) :
    MakesOnly P (.ok (found.map wrap)) := by
  intro v same
  obtain ⟨a, -, rfl⟩ := Option.map_eq_some_iff.mp (Except.ok.inj same)
  exact known a

end MakesOnly

/-- What a production makes, if anything, is of one dimension. -/
def Makes (d : Dimension) (result : Produced) : Prop :=
  ∀ v, result = .ok (some v) → v.dimension? = some d

@[simp]
theorem makes_made (d : Dimension) (v : Value) : Makes d (made v) ↔ v.dimension? = some d :=
  makes_only_made v

@[simp]
theorem makes_declined (d : Dimension) : Makes d declined :=
  makes_only_declined

theorem makes_bind {α : Type} {d : Dimension} (first : Except Failure α) {next : α → Produced}
    (makes : ∀ a, Makes d (next a)) : Makes d (first >>= next) :=
  makes_only_bind first makes

theorem makes_map {α : Type} {d : Dimension} (found : Option α) {wrap : α → Value}
    (known : ∀ a, (wrap a).dimension? = some d) : Makes d (.ok (found.map wrap)) :=
  makes_only_map found known

/-- A production that makes values of one dimension only. -/
def Yields (d : Dimension) (produce : List (Finding Value) → Produced) : Prop :=
  ∀ findings, Makes d (produce findings)

-- Each section derives the equations of its productions first, once for all proofs that split them.
namespace Numbers

attribute [local simp] unit ten power digits decimal negate multiply sum

theorem unit_yields (readings : Readings) : Yields .number (unit readings) := by
  intro findings
  unfold unit
  split
  · simp only
    split
    · simp [wordNumber]
    · split <;> simp [wordNumber]
  · simp

theorem ten_yields (readings : Readings) : Yields .number (ten readings) := by
  intro findings
  unfold ten
  split
  · split <;> simp [wordNumber]
  · simp

theorem power_yields : Yields .number power := by
  intro findings
  unfold power
  split
  · exact makes_bind _ fun exponent => by simp
  · simp

theorem digits_yields : Yields .number digits := by
  intro findings
  unfold digits
  split
  · exact makes_bind _ fun n => by simp
  · simp

theorem decimal_yields : Yields .number decimal := by
  intro findings
  unfold decimal
  split <;> simp

theorem negate_yields : Yields .number negate := by
  intro findings
  unfold negate
  split
  · split <;> simp
  · simp

theorem multiply_yields : Yields .number multiply := by
  intro findings
  unfold multiply
  split
  · exact makes_map _ fun _ => rfl
  · simp

theorem sum_yields : Yields .number sum := by
  intro findings
  unfold sum
  split
  · exact makes_map _ fun _ => rfl
  · simp

theorem rules_yield (readings : Readings) : ∀ r ∈ rules readings, Yields .number r.produce := by
  simp only [rules, List.forall_mem_cons]
  exact ⟨unit_yields readings, ten_yields readings, power_yields, digits_yields, digits_yields,
    decimal_yields, negate_yields, multiply_yields, sum_yields, by simp⟩

end Numbers

namespace Ordinals

attribute [local simp] word digits compound

theorem word_yields (readings : Readings) : Yields .ordinal (word readings) := by
  intro findings
  unfold word
  split
  · split <;> simp [ofInt]
  · simp

theorem digits_yields : Yields .ordinal digits := by
  intro findings
  unfold digits
  split
  · exact makes_bind _ fun n => by simp [ofInt]
  · simp

theorem compound_yields : Yields .ordinal compound := by
  intro findings
  unfold compound
  split
  · split
    · split <;> simp [ofInt]
    · simp
  · simp

theorem rules_yield (readings : Readings) : ∀ r ∈ rules readings, Yields .ordinal r.produce := by
  simp only [rules, List.forall_mem_cons]
  exact ⟨word_yields readings, digits_yields, compound_yields, by simp⟩

end Ordinals

namespace Measures

attribute [local simp] bareTemperature degrees scaled percentage

theorem bare_temperature_yields : Yields .temperature bareTemperature := by
  intro findings
  unfold bareTemperature
  split
  · exact makes_bind _ fun x => by simp
  · simp

theorem degrees_yields : Yields .temperature degrees := by
  intro findings
  unfold degrees
  split <;> simp

theorem scaled_yields : Yields .temperature scaled := by
  intro findings
  unfold scaled
  split <;> simp

theorem percentage_yields : Yields .percentage percentage := by
  intro findings
  unfold percentage
  split
  · exact makes_bind _ fun x => by simp
  · simp

theorem temperature_rules_yield : ∀ r ∈ temperatureRules, Yields .temperature r.produce := by
  simp only [temperatureRules, List.forall_mem_cons]
  exact ⟨bare_temperature_yields, degrees_yields, scaled_yields, scaled_yields, by simp⟩

theorem percentage_rules_yield : ∀ r ∈ percentageRules, Yields .percentage r.produce := by
  simp only [percentageRules, List.forall_mem_cons]
  exact ⟨percentage_yields, by simp⟩

end Measures

namespace Money

attribute [local simp] currency price amountThenCurrency codeThenAmount approximately

theorem currency_yields : Yields .moneyUnit currency := by
  intro findings
  unfold currency
  split
  · split <;> simp
  · simp

theorem price_yields (readings : Readings) : Yields .amountOfMoney (price readings) := by
  intro findings
  unfold price
  split
  · split <;> simp
  · simp

theorem amount_then_currency_yields : Yields .amountOfMoney amountThenCurrency := by
  intro findings
  unfold amountThenCurrency
  split
  · exact makes_bind _ fun x => by simp
  · simp

theorem code_then_amount_yields : Yields .amountOfMoney codeThenAmount := by
  intro findings
  unfold codeThenAmount
  split
  · exact makes_bind _ fun x => by simp
  · simp

theorem approximately_yields : Yields .amountOfMoney approximately := by
  intro findings
  unfold approximately
  split <;> simp

theorem rules_yield (readings : Readings) :
    ∀ r ∈ rules readings, Yields .moneyUnit r.produce ∨ Yields .amountOfMoney r.produce := by
  simp only [rules, List.forall_mem_cons]
  exact ⟨.inl currency_yields, .inr (price_yields readings), .inr amount_then_currency_yields,
    .inr code_then_amount_yields, .inr approximately_yields, by simp⟩

end Money

namespace Durations

attribute [local simp] grain counted single halfHour composite approximately

theorem grain_yields : Yields .timeGrain grain := by
  intro findings
  unfold grain
  split
  · exact makes_bind _ fun g => by simp
  · simp

theorem counted_yields : Yields .duration counted := by
  intro findings
  unfold counted
  split
  · split <;> simp
  · simp

theorem single_yields : Yields .duration single := by
  intro findings
  unfold single
  split <;> simp

theorem half_hour_yields : Yields .duration halfHour := by
  intro findings
  unfold halfHour
  split <;> simp

theorem composite_yields : Yields .duration composite := by
  intro findings
  unfold composite
  split
  · exact makes_bind _ fun merged => makes_map merged fun _ => rfl
  · simp

theorem approximately_yields : Yields .duration approximately := by
  intro findings
  unfold approximately
  split <;> simp

theorem rules_yield :
    ∀ r ∈ rules, Yields .timeGrain r.produce ∨ Yields .duration r.produce := by
  simp only [rules, List.forall_mem_cons]
  exact ⟨.inl grain_yields, .inr counted_yields, .inr single_yields, .inr half_hour_yields,
    .inr composite_yields, .inr approximately_yields, by simp⟩

end Durations

namespace Datetimes

attribute [local simp] relativeDay relativeGrain dayOfWeek directedDayOfWeek month theOrdinalDay
  monthDay dayMonth withYear inYear bareYear isoDate slashDate weekdayDate clock halfDay atTime
  oClock bareHour timed dateAtTime timeOnDate inDuration durationThen range

def IsExactTime (v : Value) : Prop :=
  ∃ form latent, v = .datetime { form, latent }

@[simp]
theorem is_exact_time_datetime (form : TimeForm) (latent : Bool) :
    IsExactTime (.datetime { form, latent }) :=
  ⟨form, latent, rfl⟩

@[simp]
theorem is_exact_time_of_form (form : TimeForm) : IsExactTime (ofForm form) := ⟨form, false, rfl⟩

@[simp]
theorem is_exact_time_latent_form (form : TimeForm) : IsExactTime (latentForm form) :=
  ⟨form, true, rfl⟩

@[simp]
theorem is_exact_time_of_date (d : PartialDate) : IsExactTime (ofDate d) :=
    ⟨.calendar d, false, rfl⟩

def TellsExactly (produce : List (Finding Value) → Produced) : Prop :=
  ∀ findings, MakesOnly IsExactTime (produce findings)

theorem TellsExactly.yields {produce : List (Finding Value) → Produced}
    (tells : TellsExactly produce) : Yields .datetime produce := by
  intro findings v ran
  obtain ⟨form, latent, rfl⟩ := tells findings v ran
  rfl

theorem now_exact : TellsExactly now := by
  intro findings
  unfold now
  exact (makes_only_made _).mpr (by simp)

theorem relative_day_exact : TellsExactly relativeDay := by
  intro findings
  unfold relativeDay
  split
  · exact makes_only_bind _ fun offset => by simp
  · simp

theorem relative_grain_exact : TellsExactly relativeGrain := by
  intro findings
  unfold relativeGrain
  split
  · exact makes_only_bind _ fun direction => makes_only_bind _ fun grain => by simp
  · simp

theorem day_of_week_exact : TellsExactly dayOfWeek := by
  intro findings
  unfold dayOfWeek
  split
  · exact makes_only_bind _ fun weekday => by simp
  · simp

theorem directed_day_of_week_exact : TellsExactly directedDayOfWeek := by
  intro findings
  unfold directedDayOfWeek
  split
  · refine makes_only_bind _ fun direction => ?_
    split <;> simp
  · simp

theorem month_exact : TellsExactly month := by
  intro findings
  unfold month
  split
  · exact makes_only_bind _ fun number => by simp
  · simp

theorem the_ordinal_day_exact : TellsExactly theOrdinalDay := by
  intro findings
  unfold theOrdinalDay
  split <;> simp

theorem month_day_exact : TellsExactly monthDay := by
  intro findings
  unfold monthDay
  split
  · split <;> simp
  · simp

theorem day_month_exact : TellsExactly dayMonth := by
  intro findings
  unfold dayMonth
  split
  · split <;> simp
  · simp

theorem with_year_exact : TellsExactly withYear := by
  intro findings
  unfold withYear
  split
  · split <;> simp
  · simp

theorem in_year_exact : TellsExactly inYear := by
  intro findings
  unfold inYear
  split <;> simp

theorem bare_year_exact : TellsExactly bareYear := by
  intro findings
  unfold bareYear
  split <;> simp

theorem iso_date_exact : TellsExactly isoDate := by
  intro findings
  unfold isoDate
  split
  · simp only
    split <;> simp
  · simp

theorem slash_date_exact (readings : Readings) : TellsExactly (slashDate readings) := by
  intro findings
  unfold slashDate
  split
  · split
    · simp only
      split <;> simp
    · split <;> simp
  · simp

theorem weekday_date_exact : TellsExactly weekdayDate := by
  intro findings
  unfold weekdayDate
  split
  · split <;> simp
  · simp

theorem day_rules_exact (readings : Readings) :
    ∀ r ∈ dayRules readings, TellsExactly r.produce := by
  simp only [dayRules, List.forall_mem_cons]
  exact ⟨now_exact, relative_day_exact, relative_grain_exact, day_of_week_exact,
    directed_day_of_week_exact, month_exact, the_ordinal_day_exact, month_day_exact,
    day_month_exact, with_year_exact, with_year_exact, in_year_exact, bare_year_exact,
    iso_date_exact, slash_date_exact readings, weekday_date_exact, by simp⟩

theorem clock_exact : TellsExactly clock := by
  intro findings
  unfold clock
  split <;> simp

theorem half_day_exact : TellsExactly halfDay := by
  intro findings
  unfold halfDay
  split
  · split
    · split <;> simp
    · simp
  · simp

theorem noon_exact : TellsExactly noon := by
  intro findings
  exact (makes_only_made _).mpr (by simp)

theorem midnight_exact : TellsExactly midnight := by
  intro findings
  exact (makes_only_made _).mpr (by simp)

theorem at_time_exact : TellsExactly atTime := by
  intro findings
  unfold atTime
  split <;> simp

theorem o_clock_exact : TellsExactly oClock := by
  intro findings
  unfold oClock
  split
  · exact makes_only_map _ fun _ => by simp
  · simp

theorem bare_hour_exact : TellsExactly bareHour := by
  intro findings
  unfold bareHour
  split
  · exact makes_only_map _ fun _ => by simp
  · simp

theorem time_rules_exact : ∀ r ∈ timeRules, TellsExactly r.produce := by
  simp only [timeRules, List.forall_mem_cons]
  exact ⟨clock_exact, half_day_exact, noon_exact, midnight_exact, at_time_exact, o_clock_exact,
    bare_hour_exact, by simp⟩

theorem timed_exact (date time : DatetimeValue) : MakesOnly IsExactTime (timed date time) := by
  unfold timed
  split <;> simp

theorem shifted_makes (d : DurationValue) (sign : Int) : Makes .datetime (shifted d sign) :=
  (makes_made _ _).mpr rfl

theorem date_at_time_exact : TellsExactly dateAtTime := by
  intro findings
  unfold dateAtTime
  split
  · exact timed_exact _ _
  · simp

theorem time_on_date_exact : TellsExactly timeOnDate := by
  intro findings
  unfold timeOnDate
  split
  · exact timed_exact _ _
  · simp

/-- A production that counts the one duration it finds ahead or back. -/
def Shifts (produce : List (Finding Value) → Produced) : Prop :=
  ∀ findings, produce findings = declined ∨ ∃ d : DurationValue, ∃ sign,
    (∀ w, .value w ∈ findings ↔ w = .duration d) ∧ produce findings = shifted d sign

theorem in_duration_shifts : Shifts inDuration := by
  intro findings
  unfold inDuration
  split
  · exact .inr ⟨_, _, by simp, rfl⟩
  · exact .inl rfl

theorem duration_then_shifts (sign : Int) : Shifts (durationThen sign) := by
  intro findings
  unfold durationThen
  split
  · exact .inr ⟨_, _, by simp, rfl⟩
  · exact .inl rfl

theorem Shifts.yields {produce : List (Finding Value) → Produced} (shifts : Shifts produce) :
    Yields .datetime produce := by
  intro findings
  rcases shifts findings with same | ⟨d, sign, -, same⟩
  · rw [same]
    simp
  · rw [same]
    exact shifted_makes d sign

theorem range_exact : TellsExactly range := by
  intro findings
  unfold range
  split <;> simp

theorem combined_rules_yield : ∀ r ∈ combinedRules, Yields .datetime r.produce := by
  simp only [combinedRules, List.forall_mem_cons]
  exact ⟨date_at_time_exact.yields, time_on_date_exact.yields, in_duration_shifts.yields,
    (duration_then_shifts _).yields, (duration_then_shifts _).yields, range_exact.yields,
    range_exact.yields, by simp⟩

theorem rules_yield (readings : Readings) :
    ∀ r ∈ rules readings, Yields .datetime r.produce := by
  intro r member
  simp only [rules, List.mem_append] at member
  rcases member with (day | time) | pair
  · exact (day_rules_exact readings r day).yields
  · exact (time_rules_exact r time).yields
  · exact combined_rules_yield r pair

end Datetimes

/-! All rules. -/

theorem rules_with_yield (readings : Readings) :
    ∀ r ∈ rulesWith readings,
      r ∈ Numbers.rules readings ∨ ∃ d, d ≠ .number ∧ Yields d r.produce := by
  intro r member
  simp only [rulesWith, List.mem_append] at member
  rcases member with (((((number | ordinal) | temperature) | percentage) | money) | duration) | time
  · exact .inl number
  · exact .inr ⟨_, by decide, Ordinals.rules_yield readings r ordinal⟩
  · exact .inr ⟨_, by decide, Measures.temperature_rules_yield r temperature⟩
  · exact .inr ⟨_, by decide, Measures.percentage_rules_yield r percentage⟩
  · rcases Money.rules_yield readings r money with unit | amount
    · exact .inr ⟨_, by decide, unit⟩
    · exact .inr ⟨_, by decide, amount⟩
  · rcases Durations.rules_yield r duration with grain | period
    · exact .inr ⟨_, by decide, grain⟩
    · exact .inr ⟨_, by decide, period⟩
  · exact .inr ⟨_, by decide, Datetimes.rules_yield readings r time⟩

/-- The rules have names of their own, whatever the readings. -/
theorem rules_with_distinct (readings : Readings) :
    ((rulesWith readings).map (·.name)).Nodup := by
  have same : (rulesWith readings).map (·.name) = (rulesWith usualReadings).map (·.name) := rfl
  rw [same]
  decide +kernel

section Forests

variable {rs : RuleSet Value} {readings : Readings} {text : Array Char} {node : Node Value}

theorem builds_number {r : Rule Value} (member : r ∈ rulesWith readings)
    (built : Builds text r node) (known : node.value.dimension? = some .number) :
    r ∈ Numbers.rules readings := by
  rcases rules_with_yield readings r member with number | ⟨d, other, yields⟩
  · exact number
  · obtain ⟨findings, ⟨start, stop, v, -, made, -, shape⟩, -⟩ := built
    have dimension := yields findings v made
    rw [shape] at known
    rw [show v.dimension? = some .number from known] at dimension
    cases dimension
    exact absurd rfl other

theorem derives_dimension (english : rs.rules = rulesWith readings)
    (derives : Derives rs text node) : ∃ d, node.value.dimension? = some d := by
  have keeps : ∀ r ∈ rs.rules, Keeps (fun v : Value => ∃ d, v.dimension? = some d) r := by
    intro r member _ findings v _ ran
    rw [english] at member
    rcases rules_with_yield readings r member with number | ⟨d, -, yields⟩
    · exact ⟨_, Numbers.rules_yield readings r number findings v ran⟩
    · exact ⟨d, yields findings v ran⟩
  exact derives_keeps keeps derives

end Forests

end Reckon.English

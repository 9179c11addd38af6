import Reckon.Proofs.English.Dimensions
import Reckon.Proofs.English.WellFormed

/-!
# Values that are read off as they stand

The rules convert numbers where they take them up: ordinals hold integers, and measures and amounts
hold floating-point numbers. So reading such a value needs no conversion that could fail, and of all
values only a time may fail to resolve.
-/

set_option autoImplicit false

namespace Reckon

/-- Whether a value holds its number in the form in which it is reported. -/
def Value.Converted : Value → Prop
  | .ordinal v => ∃ n, v.value = .int n
  | .percentage v => ∃ x, v.value = .float x
  | .temperature v => ∃ x, v.value = .float x
  | .money v => ∃ x, v.value = .float x
  | .number _ | .duration _ | .datetime _ | .timeGrain _ | .moneyUnit _ | .unknown _ _ => True

/-- A well-formed value with a converted number resolves under its kind, unless it is a time. -/
theorem Value.resolve_converted {v : Value} (wellFormed : v.WellFormed) (converted : v.Converted)
    {kind : Kind} (own : v.dimension? = some kind.dimension) (timeless : kind ≠ .datetime)
    (c : Context) : ∃ output, v.resolve kind c = .ok output := by
  unfold resolve
  rw [if_pos own]
  cases v with
  | number v =>
      simp only [read]
      cases number : v.value with
      | truth b => exact absurd number (wellFormed b)
      | int n => exact ⟨_, rfl⟩
      | float x => exact ⟨_, rfl⟩
  | ordinal v =>
      obtain ⟨n, whole⟩ := converted
      simp only [read, whole]
      exact ⟨_, rfl⟩
  | percentage v | temperature v | money v =>
      obtain ⟨x, float⟩ := converted
      simp only [read, float]
      exact ⟨_, rfl⟩
  | duration v =>
      have period : v.period.WellFormed := wellFormed
      have nonempty : v.period.isEmpty = false := by simpa using period.nonempty
      simp only [read, nonempty]
      exact ⟨_, rfl⟩
  | datetime v => cases kind <;> simp [dimension?, Kind.dimension] at own timeless
  | timeGrain v | moneyUnit v => cases kind <;> simp [dimension?, Kind.dimension] at own
  | unknown typeName dimension => exact wellFormed.elim

namespace English

open Forest Sequencing

theorem keeps_converted {d : Dimension} {r : Rule Value} (yields : Yields d r.produce)
    (free : d ∉ [Dimension.ordinal, .percentage, .temperature, .amountOfMoney]) :
    Keeps Value.Converted r := by
  intro text findings v _ ran
  have known := yields findings v ran
  cases v <;> first | trivial | (cases known; simp at free)

theorem Ordinals.word_converts (readings : Readings) (findings : List (Finding Value)) (v : Value)
    (ran : word readings findings = .ok (some v)) : v.Converted := by
  unfold word at ran
  split at ran
  · split at ran
    · cases ran
      exact ⟨_, rfl⟩
    · cases ran
  · cases ran

theorem Ordinals.digits_convert (findings : List (Finding Value)) (v : Value)
    (ran : digits findings = .ok (some v)) : v.Converted := by
  unfold digits at ran
  split at ran
  · obtain ⟨n, -, made⟩ := (bind_ok_iff _ _ _).mp ran
    cases made
    exact ⟨_, rfl⟩
  · cases ran

theorem Ordinals.compound_converts (findings : List (Finding Value)) (v : Value)
    (ran : compound findings = .ok (some v)) : v.Converted := by
  unfold compound at ran
  split at ran
  · split at ran
    · split at ran
      · cases ran
        exact ⟨_, rfl⟩
      · cases ran
    · cases ran
  · cases ran

theorem Ordinals.rules_convert (readings : Readings) :
    ∀ r ∈ rules readings, Keeps Value.Converted r := by
  simp only [rules, List.forall_mem_cons]
  exact ⟨keeps_of_made (word_converts readings), keeps_of_made digits_convert,
    keeps_of_made compound_converts, by simp⟩

namespace Measures

theorem bare_temperature_converts (findings : List (Finding Value)) (v : Value)
    (ran : bareTemperature findings = .ok (some v)) : v.Converted := by
  unfold bareTemperature at ran
  split at ran
  · obtain ⟨x, -, made⟩ := (bind_ok_iff _ _ _).mp ran
    cases made
    exact ⟨x, rfl⟩
  · cases ran

theorem percentage_converts (findings : List (Finding Value)) (v : Value)
    (ran : percentage findings = .ok (some v)) : v.Converted := by
  unfold percentage at ran
  split at ran
  · obtain ⟨x, -, made⟩ := (bind_ok_iff _ _ _).mp ran
    cases made
    exact ⟨x, rfl⟩
  · cases ran

theorem degrees_keeps {name : String} {p : Pattern} {test : TemperatureValue → Bool} :
    Keeps Value.Converted ⟨name, [Test.temperature test, .text p], degrees⟩ := by
  intro text findings v fits ran
  obtain ⟨x, y, same, left, right⟩ := findings_two fits
  obtain ⟨t, first, -, converted⟩ := fits_of .temperature left
  obtain ⟨m, second, -⟩ := fits_text right
  subst same first second
  cases ran
  exact converted

theorem scaled_keeps {name : String} {p : Pattern} {test : TemperatureValue → Bool} :
    Keeps Value.Converted ⟨name, [Test.temperature test, .text p], scaled⟩ := by
  intro text findings v fits ran
  obtain ⟨x, y, same, left, right⟩ := findings_two fits
  obtain ⟨t, first, -, converted⟩ := fits_of .temperature left
  obtain ⟨m, second, -⟩ := fits_text right
  subst same first second
  cases ran
  exact converted

theorem temperature_rules_convert : ∀ r ∈ temperatureRules, Keeps Value.Converted r := by
  simp only [temperatureRules, List.forall_mem_cons]
  exact ⟨keeps_of_made bare_temperature_converts, degrees_keeps, scaled_keeps,
      scaled_keeps, by simp⟩

theorem percentage_rules_convert : ∀ r ∈ percentageRules, Keeps Value.Converted r := by
  simp only [percentageRules, List.forall_mem_cons]
  exact ⟨keeps_of_made percentage_converts, by simp⟩

end Measures

namespace Money

theorem price_converts (readings : Readings) (findings : List (Finding Value)) (v : Value)
    (ran : price readings findings = .ok (some v)) : v.Converted := by
  unfold price at ran
  split at ran
  · split at ran
    · cases ran
      exact ⟨_, rfl⟩
    · cases ran
  · cases ran

theorem amount_then_currency_converts (findings : List (Finding Value)) (v : Value)
    (ran : amountThenCurrency findings = .ok (some v)) : v.Converted := by
  unfold amountThenCurrency at ran
  split at ran
  · obtain ⟨x, -, made⟩ := (bind_ok_iff _ _ _).mp ran
    cases made
    exact ⟨x, rfl⟩
  · cases ran

theorem code_then_amount_converts (findings : List (Finding Value)) (v : Value)
    (ran : codeThenAmount findings = .ok (some v)) : v.Converted := by
  unfold codeThenAmount at ran
  split at ran
  · obtain ⟨x, -, made⟩ := (bind_ok_iff _ _ _).mp ran
    cases made
    exact ⟨x, rfl⟩
  · cases ran

theorem approximately_keeps {name : String} {p : Pattern} :
    Keeps Value.Converted ⟨name, [.text p, Test.exact .amountOfMoney], approximately⟩ := by
  intro text findings v fits ran
  obtain ⟨x, y, same, left, right⟩ := findings_two fits
  obtain ⟨m, first, -⟩ := fits_text left
  obtain ⟨a, second, -, converted⟩ := fits_of .amountOfMoney right
  subst same first second
  cases ran
  exact converted

theorem rules_convert (readings : Readings) : ∀ r ∈ rules readings, Keeps Value.Converted r := by
  simp only [rules, List.forall_mem_cons]
  exact ⟨keeps_converted currency_yields (by decide), keeps_of_made (price_converts readings),
    keeps_of_made amount_then_currency_converts, keeps_of_made code_then_amount_converts,
    approximately_keeps, by simp⟩

end Money

theorem rules_with_convert (readings : Readings) :
    ∀ r ∈ rulesWith readings, Keeps Value.Converted r := by
  intro r member
  simp only [rulesWith, List.mem_append] at member
  rcases member with (((((number | ordinal) | temperature) | percentage) | money) | duration) | time
  · exact keeps_converted (Numbers.rules_yield readings r number) (by decide)
  · exact Ordinals.rules_convert readings r ordinal
  · exact Measures.temperature_rules_convert r temperature
  · exact Measures.percentage_rules_convert r percentage
  · exact Money.rules_convert readings r money
  · rcases Durations.rules_yield r duration with grain | period
    · exact keeps_converted grain (by decide)
    · exact keeps_converted period (by decide)
  · exact keeps_converted (Datetimes.rules_yield readings r time) (by decide)

end English

end Reckon

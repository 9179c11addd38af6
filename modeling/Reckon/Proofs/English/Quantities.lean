import Reckon.English.Durations
import Reckon.English.Measures
import Reckon.English.Money
import Reckon.English.Ordinals
import Reckon.Proofs.English.Findings
import Reckon.Proofs.Resolution.WellFormed

/-!
# Numbers, measures, amounts and durations are well-formed

No rule makes a number of a truth value. The periods of durations are never empty, and a count that
stands before a unit is not negative.
-/

set_option autoImplicit false

namespace Reckon.English

open Forest Sequencing

theorem neg_ne_truth (n : Numeral) (b : Bool) : n.neg ≠ .truth b := by
  cases n <;> simp [Numeral.neg]

namespace Numbers

theorem word_number_well_formed (value grain : Int) : (wordNumber value grain).WellFormed := by
  intro b
  simp

theorem unit_made (readings : Readings) (findings : List (Finding Value)) (v : Value)
    (ran : unit readings findings = .ok (some v)) : v.WellFormed := by
  unfold unit at ran
  split at ran
  · simp only at ran
    split at ran
    · cases ran
      exact word_number_well_formed _ _
    · split at ran
      · cases ran
        exact word_number_well_formed _ _
      · cases ran
  · cases ran

theorem ten_made (readings : Readings) (findings : List (Finding Value)) (v : Value)
    (ran : ten readings findings = .ok (some v)) : v.WellFormed := by
  unfold ten at ran
  split at ran
  · split at ran
    · cases ran
      exact word_number_well_formed _ _
    · cases ran
  · cases ran

theorem power_made (findings : List (Finding Value)) (v : Value)
    (ran : power findings = .ok (some v)) : v.WellFormed := by
  unfold power at ran
  split at ran
  · obtain ⟨exponent, -, made⟩ := (bind_ok_iff _ _ _).mp ran
    cases made
    intro b
    simp
  · cases ran

theorem digits_made (findings : List (Finding Value)) (v : Value)
    (ran : digits findings = .ok (some v)) : v.WellFormed := by
  unfold digits at ran
  split at ran
  · obtain ⟨n, -, made⟩ := (bind_ok_iff _ _ _).mp ran
    cases made
    intro b
    simp
  · cases ran

theorem decimal_made (findings : List (Finding Value)) (v : Value)
    (ran : decimal findings = .ok (some v)) : v.WellFormed := by
  unfold decimal at ran
  split at ran
  · cases ran
    intro b
    simp
  · cases ran

theorem negate_made (findings : List (Finding Value)) (v : Value)
    (ran : negate findings = .ok (some v)) : v.WellFormed := by
  unfold negate at ran
  split at ran
  · split at ran
    · cases ran
    · cases ran
      intro b
      exact neg_ne_truth _ b
  · cases ran

theorem scale_ne_truth {a p n : NumberValue} (scaled : scale a p = some n) (b : Bool) :
    n.value ≠ .truth b := by
  unfold scale at scaled
  split at scaled
  · split at scaled
    · cases scaled
      simp
    · cases scaled
  · cases scaled

theorem join_ne_truth {left right n : NumberValue} (joined : join left right = some n) (b : Bool) :
    n.value ≠ .truth b := by
  unfold join at joined
  split at joined
  · simp only at joined
    split at joined
    · cases joined
      simp
    · cases joined
  · cases joined

theorem multiply_made (findings : List (Finding Value)) (v : Value)
    (ran : multiply findings = .ok (some v)) : v.WellFormed := by
  unfold multiply at ran
  split at ran
  · obtain ⟨n, scaled, same⟩ := Option.map_eq_some_iff.mp (Except.ok.inj ran)
    rw [← same]
    exact scale_ne_truth scaled
  · cases ran

theorem sum_made (findings : List (Finding Value)) (v : Value)
    (ran : sum findings = .ok (some v)) : v.WellFormed := by
  unfold sum at ran
  split at ran
  · obtain ⟨n, joined, same⟩ := Option.map_eq_some_iff.mp (Except.ok.inj ran)
    rw [← same]
    exact join_ne_truth joined
  · cases ran

theorem rules_made (readings : Readings) : ∀ r ∈ rules readings, ∀ findings v,
    r.produce findings = .ok (some v) → v.WellFormed := by
  simp only [rules, List.forall_mem_cons]
  exact ⟨unit_made readings, ten_made readings, power_made, digits_made, digits_made, decimal_made,
    negate_made, multiply_made, sum_made, by simp⟩

theorem rules_keep (readings : Readings) : ∀ r ∈ rules readings, Keeps Value.WellFormed r :=
  fun r member => keeps_of_made (rules_made readings r member)

end Numbers

namespace Ordinals

theorem word_made (readings : Readings) (findings : List (Finding Value)) (v : Value)
    (ran : word readings findings = .ok (some v)) : v.WellFormed := by
  unfold word at ran
  split at ran
  · split at ran
    · cases ran
      trivial
    · cases ran
  · cases ran

theorem digits_made (findings : List (Finding Value)) (v : Value)
    (ran : digits findings = .ok (some v)) : v.WellFormed := by
  unfold digits at ran
  split at ran
  · obtain ⟨n, -, made⟩ := (bind_ok_iff _ _ _).mp ran
    cases made
    trivial
  · cases ran

theorem compound_made (findings : List (Finding Value)) (v : Value)
    (ran : compound findings = .ok (some v)) : v.WellFormed := by
  unfold compound at ran
  split at ran
  · split at ran
    · split at ran
      · cases ran
        trivial
      · cases ran
    · cases ran
  · cases ran

theorem rules_keep (readings : Readings) : ∀ r ∈ rules readings, Keeps Value.WellFormed r := by
  simp only [rules, List.forall_mem_cons]
  exact ⟨keeps_of_made (word_made readings), keeps_of_made digits_made,
    keeps_of_made compound_made, by simp⟩

end Ordinals

namespace Measures

theorem bare_temperature_made (findings : List (Finding Value)) (v : Value)
    (ran : bareTemperature findings = .ok (some v)) : v.WellFormed := by
  unfold bareTemperature at ran
  split at ran
  · obtain ⟨x, -, made⟩ := (bind_ok_iff _ _ _).mp ran
    cases made
    trivial
  · cases ran

theorem degrees_made (findings : List (Finding Value)) (v : Value)
    (ran : degrees findings = .ok (some v)) : v.WellFormed := by
  unfold degrees at ran
  split at ran
  · cases ran
    trivial
  · cases ran

theorem scaled_made (findings : List (Finding Value)) (v : Value)
    (ran : scaled findings = .ok (some v)) : v.WellFormed := by
  unfold scaled at ran
  split at ran
  · cases ran
    trivial
  · cases ran

theorem percentage_made (findings : List (Finding Value)) (v : Value)
    (ran : percentage findings = .ok (some v)) : v.WellFormed := by
  unfold percentage at ran
  split at ran
  · obtain ⟨x, -, made⟩ := (bind_ok_iff _ _ _).mp ran
    cases made
    trivial
  · cases ran

theorem rules_keep :
    ∀ r ∈ temperatureRules ++ percentageRules, Keeps Value.WellFormed r := by
  simp only [temperatureRules, percentageRules, List.cons_append, List.nil_append,
    List.forall_mem_cons]
  exact ⟨keeps_of_made bare_temperature_made, keeps_of_made degrees_made,
    keeps_of_made scaled_made, keeps_of_made scaled_made, keeps_of_made percentage_made, by simp⟩

end Measures

namespace Money

theorem currency_made (findings : List (Finding Value)) (v : Value)
    (ran : currency findings = .ok (some v)) : v.WellFormed := by
  unfold currency at ran
  split at ran
  · split at ran
    · cases ran
      trivial
    · cases ran
  · cases ran

theorem price_made (readings : Readings) (findings : List (Finding Value)) (v : Value)
    (ran : price readings findings = .ok (some v)) : v.WellFormed := by
  unfold price at ran
  split at ran
  · split at ran
    · cases ran
      trivial
    · cases ran
  · cases ran

theorem amount_then_currency_made (findings : List (Finding Value)) (v : Value)
    (ran : amountThenCurrency findings = .ok (some v)) : v.WellFormed := by
  unfold amountThenCurrency at ran
  split at ran
  · obtain ⟨x, -, made⟩ := (bind_ok_iff _ _ _).mp ran
    cases made
    trivial
  · cases ran

theorem code_then_amount_made (findings : List (Finding Value)) (v : Value)
    (ran : codeThenAmount findings = .ok (some v)) : v.WellFormed := by
  unfold codeThenAmount at ran
  split at ran
  · obtain ⟨x, -, made⟩ := (bind_ok_iff _ _ _).mp ran
    cases made
    trivial
  · cases ran

theorem approximately_made (findings : List (Finding Value)) (v : Value)
    (ran : approximately findings = .ok (some v)) : v.WellFormed := by
  unfold approximately at ran
  split at ran
  · cases ran
    trivial
  · cases ran

theorem rules_keep (readings : Readings) : ∀ r ∈ rules readings, Keeps Value.WellFormed r := by
  simp only [rules, List.forall_mem_cons]
  exact ⟨keeps_of_made currency_made, keeps_of_made (price_made readings),
    keeps_of_made amount_then_currency_made, keeps_of_made code_then_amount_made,
    keeps_of_made approximately_made, by simp⟩

end Money

namespace Durations

theorem grain_made (findings : List (Finding Value)) (v : Value)
    (ran : grain findings = .ok (some v)) : v.WellFormed := by
  unfold grain at ran
  split at ran
  · obtain ⟨g, -, made⟩ := (bind_ok_iff _ _ _).mp ran
    cases made
    trivial
  · cases ran

theorem single_well_formed {grain : Grain} {count : Int} (counts : 0 ≤ count) :
    Period.WellFormed [(grain, count)] := by
  refine ⟨by simp, ?_⟩
  intro part member
  rw [List.mem_singleton.mp member]
  exact counts

theorem is_count_nonneg {n : NumberValue} {count : Int} (counts : isCount n = true)
    (whole : n.value.int? = some count) : 0 ≤ count := by
  unfold isCount Numbers.isNonNegative at counts
  cases value : n.value with
  | int k =>
      rw [value] at counts whole
      cases whole
      simpa [Numeral.isInt, Numeral.int?, Numeral.le] using counts
  | truth b =>
      rw [value] at whole
      cases whole
      split <;> omega
  | float x =>
      rw [value] at whole
      cases whole

theorem counted_keeps {name : String} :
    Keeps Value.WellFormed ⟨name, [Test.number isCount, Test.timeGrain], counted⟩ := by
  intro text findings v fits ran
  obtain ⟨x, y, same, left, right⟩ := findings_two fits
  obtain ⟨n, first, counts, -⟩ := fits_of .number left
  obtain ⟨g, second, -, -⟩ := fits_of .timeGrain right
  subst same first second
  simp only [counted] at ran
  split at ran
  · rename_i count whole
    cases ran
    exact single_well_formed (is_count_nonneg counts whole)
  · cases ran

theorem single_made (findings : List (Finding Value)) (v : Value)
    (ran : single findings = .ok (some v)) : v.WellFormed := by
  unfold single at ran
  split at ran
  · cases ran
    exact single_well_formed (by omega)
  · cases ran

theorem half_hour_made (findings : List (Finding Value)) (v : Value)
    (ran : halfHour findings = .ok (some v)) : v.WellFormed := by
  unfold halfHour at ran
  split at ran
  · cases ran
    exact single_well_formed (by omega)
  · cases ran

theorem merge_well_formed {a b d : DurationValue} (left : a.period.WellFormed)
    (right : b.period.WellFormed) (merged : merge a b = .ok (some d)) : d.period.WellFormed := by
  unfold merge at merged
  split at merged
  · split at merged
    · cases merged
    · cases merged
      refine ⟨by simp [left.nonempty], ?_⟩
      intro part member
      rcases List.mem_append.mp member with first | second
      · exact left.counts part first
      · exact right.counts part second
  · cases merged

theorem composite_keeps {name : String} {p : Pattern} :
    Keeps Value.WellFormed
      ⟨name, [Test.duration Test.any, .text p, Test.duration Test.any], composite⟩ := by
  intro text findings v fits ran
  obtain ⟨x, y, z, same, left, middle, right⟩ := findings_three fits
  obtain ⟨a, first, -, wellFormedA⟩ := fits_of .duration left
  obtain ⟨m, between, -⟩ := fits_text middle
  obtain ⟨b, second, -, wellFormedB⟩ := fits_of .duration right
  subst same first between second
  obtain ⟨merged, joined, made⟩ := (bind_ok_iff _ _ _).mp ran
  obtain ⟨d, found, value⟩ := Option.map_eq_some_iff.mp (Except.ok.inj made)
  rw [← value]
  rw [found] at joined
  exact merge_well_formed wellFormedA wellFormedB joined

theorem approximately_keeps {name : String} {p : Pattern} :
    Keeps Value.WellFormed ⟨name, [.text p, Test.exact .duration], approximately⟩ := by
  intro text findings v fits ran
  obtain ⟨x, y, same, left, right⟩ := findings_two fits
  obtain ⟨m, first, -⟩ := fits_text left
  obtain ⟨d, second, -, wellFormed⟩ := fits_of .duration right
  subst same first second
  cases ran
  exact wellFormed

theorem rules_keep : ∀ r ∈ rules, Keeps Value.WellFormed r := by
  simp only [rules, List.forall_mem_cons]
  exact ⟨keeps_of_made grain_made, counted_keeps, keeps_of_made single_made,
    keeps_of_made half_hour_made, composite_keeps, approximately_keeps, by simp⟩

end Durations

end Reckon.English

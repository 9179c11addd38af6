import Reckon.Output
import Reckon.Proofs.Calendar.PeriodGrains
import Reckon.Proofs.English.Dimensions
import Reckon.Proofs.English.Findings

/-!
# Periods are in order

The periods in a forest go from the coarsest grain to the finest. Those of single parts do; two are
put side by side only if the finest grain of the first is coarser than the coarsest of the second;
and all other rules hand on the periods that they are given. So no grain occurs twice, and nothing
is lost where counts are listed by unit.
-/

set_option autoImplicit false

namespace Reckon

/-- From coarse grains to fine ones, none twice. -/
def Period.Descends (period : Period) : Prop :=
  period.Pairwise fun a b => b.1.size < a.1.size

namespace Period

variable {period first second : Period} {finest coarsest : Grain}

theorem descends_single (part : Grain × Int) : Descends [part] :=
  List.pairwise_singleton _ part

theorem Descends.append (left : first.Descends) (right : second.Descends)
    (least : first.finest? = some finest) (most : second.coarsest? = some coarsest)
    (apart : coarsest.size < finest.size) : Descends (first ++ second) := by
  apply List.pairwise_append.mpr
  refine ⟨left, right, fun a inFirst b inSecond => ?_⟩
  have above := finest_le least a inFirst
  have below := le_coarsest most b inSecond
  omega

theorem Descends.nodup (descends : period.Descends) : (period.map (·.1)).Nodup := by
  apply List.pairwise_map.mpr
  apply descends.imp
  rintro a b less same
  rw [same] at less
  omega

/-- Listed by unit, counts of different grains are all there. -/
theorem by_unit_eq (distinct : (period.map (·.1)).Nodup) : period.byUnit = period := by
  induction period with
  | nil => rfl
  | cons part rest ih =>
      obtain ⟨g, n⟩ := part
      obtain ⟨new, others⟩ := List.nodup_cons.mp distinct
      have missing : rest.lookup g = none := by
        rw [List.lookup_eq_none_iff]
        rintro ⟨h, m⟩ member
        rw [bne_iff_ne]
        rintro rfl
        exact new (List.mem_map_of_mem (f := (·.1)) member)
      simp only [byUnit, ih others, missing]

end Period

/-- The periods of the shifts in a form. -/
def TimeForm.periods : TimeForm → List Period
  | shift period _ => [period]
  | timed date _ => date.periods
  | interval start stop => start.periods ++ stop.periods
  | now | relative _ _ | dayOfWeek _ _ | calendar _ | timeOfDay _ | unknown _ => []

namespace Value

def periods : Value → List Period
  | duration d => [d.period]
  | datetime v => v.form.periods
  | number _ | ordinal _ | percentage _ | temperature _ | money _ | timeGrain _ | moneyUnit _
  | unknown _ _ => []

/-- All periods of a value go from coarse to fine. -/
def Descends (v : Value) : Prop :=
  ∀ period ∈ v.periods, period.Descends

end Value

namespace English

open Forest Sequencing

attribute [local simp] TimeForm.periods Value.periods

/-! Rules that hand on periods. -/

/-- What a production makes of findings has only periods that are in the findings. -/
def Passes (findings : List (Finding Value)) (result : Produced) : Prop :=
  ∀ v, result = .ok (some v) → ∀ period ∈ v.periods,
    ∃ w, .value w ∈ findings ∧ period ∈ w.periods

section Passes

variable {findings : List (Finding Value)}

theorem passes_made (v : Value) : Passes findings (made v) ↔
    ∀ period ∈ v.periods, ∃ w, .value w ∈ findings ∧ period ∈ w.periods := by
  constructor
  · intro passes
    exact passes v rfl
  · rintro known w same
    cases same
    exact known

@[simp]
theorem passes_declined : Passes findings declined := by
  intro v same
  cases same

theorem passes_bind {α : Type} (first : Except Failure α) {next : α → Produced}
    (passes : ∀ a, Passes findings (next a)) : Passes findings (first >>= next) := by
  intro v ran
  obtain ⟨a, -, later⟩ := (bind_ok_iff _ _ _).mp ran
  exact passes a v later

theorem passes_map {α : Type} (found : Option α) {wrap : α → Value}
    (none : ∀ a, (wrap a).periods = []) : Passes findings (.ok (found.map wrap)) := by
  intro v same period member
  obtain ⟨a, -, rfl⟩ := Option.map_eq_some_iff.mp (Except.ok.inj same)
  rw [none a] at member
  cases member

@[simp]
theorem passes_form {form : TimeForm} : Passes findings (made (Datetimes.ofForm form)) ↔
    ∀ period ∈ form.periods, ∃ w, .value w ∈ findings ∧ period ∈ w.periods :=
  passes_made _

@[simp]
theorem passes_latent_form {form : TimeForm} : Passes findings (made (Datetimes.latentForm form)) ↔
    ∀ period ∈ form.periods, ∃ w, .value w ∈ findings ∧ period ∈ w.periods :=
  passes_made _

@[simp]
theorem passes_date (d : PartialDate) : Passes findings (made (Datetimes.ofDate d)) :=
  passes_form.mpr (by simp)

end Passes

/-- A production that makes no periods of its own. -/
def Carries (produce : List (Finding Value) → Produced) : Prop :=
  ∀ findings, Passes findings (produce findings)

theorem carries_of_yields {d : Dimension} {produce : List (Finding Value) → Produced}
    (yields : Yields d produce) (other : d ≠ .duration ∧ d ≠ .datetime) : Carries produce := by
  intro findings v ran period member
  have known := yields findings v ran
  cases v with
  | duration => exact absurd (Option.some.inj known).symm other.1
  | datetime => exact absurd (Option.some.inj known).symm other.2
  | _ => cases member

theorem known_of_fits {text : Array Char} {P : Value → Prop} {items : List (Item Value)}
    {findings : List (Finding Value)} (fits : List.Forall₂ (Fits text P) items findings) :
    ∀ w, .value w ∈ findings → P w := by
  induction fits with
  | nil => simp
  | @cons item finding items findings first rest ih =>
      intro w member
      rcases List.mem_cons.mp member with rfl | later
      · cases item with
        | text p => exact first.elim
        | value test => exact first.2
      · exact ih w later

theorem keeps_of_carries {r : Rule Value} (carries : Carries r.produce) :
    Keeps Value.Descends r := by
  intro text findings v fits ran period member
  obtain ⟨w, found, part⟩ := carries findings v ran period member
  exact known_of_fits fits w found period part

namespace Datetimes

theorem now_carries : Carries now := by
  intro findings
  unfold now
  simp

theorem relative_day_carries : Carries relativeDay := by
  intro findings
  unfold relativeDay
  split
  · exact passes_bind _ fun offset => by simp
  · simp

theorem relative_grain_carries : Carries relativeGrain := by
  intro findings
  unfold relativeGrain
  split
  · exact passes_bind _ fun direction => passes_bind _ fun grain => by simp
  · simp

theorem day_of_week_carries : Carries dayOfWeek := by
  intro findings
  unfold dayOfWeek
  split
  · exact passes_bind _ fun weekday => by simp
  · simp

theorem directed_day_of_week_carries : Carries directedDayOfWeek := by
  intro findings
  unfold directedDayOfWeek
  split
  · refine passes_bind _ fun direction => ?_
    split <;> simp
  · simp

theorem month_carries : Carries month := by
  intro findings
  unfold month
  split
  · exact passes_bind _ fun number => by simp [passes_made]
  · simp

theorem the_ordinal_day_carries : Carries theOrdinalDay := by
  intro findings
  unfold theOrdinalDay
  split <;> simp

theorem month_day_carries : Carries monthDay := by
  intro findings
  unfold monthDay
  split
  · split <;> simp
  · simp

theorem day_month_carries : Carries dayMonth := by
  intro findings
  unfold dayMonth
  split
  · split <;> simp
  · simp

theorem with_year_carries : Carries withYear := by
  intro findings
  unfold withYear
  split
  · split <;> simp
  · simp

theorem in_year_carries : Carries inYear := by
  intro findings
  unfold inYear
  split <;> simp

theorem bare_year_carries : Carries bareYear := by
  intro findings
  unfold bareYear
  split <;> simp

theorem iso_date_carries : Carries isoDate := by
  intro findings
  unfold isoDate
  split
  · simp only
    split <;> simp
  · simp

theorem slash_date_carries (readings : Readings) : Carries (slashDate readings) := by
  intro findings
  unfold slashDate
  split
  · split
    · simp only
      split <;> simp
    · split <;> simp
  · simp

theorem weekday_date_carries : Carries weekdayDate := by
  intro findings
  unfold weekdayDate
  split
  · split <;> simp
  · simp

theorem day_rules_carry (readings : Readings) : ∀ r ∈ dayRules readings, Carries r.produce := by
  simp only [dayRules, List.forall_mem_cons]
  exact ⟨now_carries, relative_day_carries, relative_grain_carries, day_of_week_carries,
    directed_day_of_week_carries, month_carries, the_ordinal_day_carries, month_day_carries,
    day_month_carries, with_year_carries, with_year_carries, in_year_carries, bare_year_carries,
    iso_date_carries, slash_date_carries readings, weekday_date_carries, by simp⟩

theorem clock_carries : Carries clock := by
  intro findings
  unfold clock
  split <;> simp

theorem half_day_carries : Carries halfDay := by
  intro findings
  unfold halfDay
  split
  · split
    · split <;> simp
    · simp
  · simp

theorem noon_carries : Carries noon := by
  intro findings
  unfold noon
  simp

theorem midnight_carries : Carries midnight := by
  intro findings
  unfold midnight
  simp

theorem at_time_carries : Carries atTime := by
  intro findings
  unfold atTime
  split
  · rename_i m v
    exact passes_form.mpr fun period member => ⟨.datetime v, by simp, member⟩
  · simp

theorem o_clock_carries : Carries oClock := by
  intro findings
  unfold oClock
  split
  · exact passes_map _ fun _ => rfl
  · simp

theorem bare_hour_carries : Carries bareHour := by
  intro findings
  unfold bareHour
  split
  · exact passes_map _ fun _ => rfl
  · simp

theorem time_rules_carry : ∀ r ∈ timeRules, Carries r.produce := by
  simp only [timeRules, List.forall_mem_cons]
  exact ⟨clock_carries, half_day_carries, noon_carries, midnight_carries, at_time_carries,
    o_clock_carries, bare_hour_carries, by simp⟩

theorem timed_passes {findings : List (Finding Value)} {date : DatetimeValue}
    (given : .value (.datetime date) ∈ findings) (time : DatetimeValue) :
    Passes findings (timed date time) := by
  unfold timed
  split
  · exact passes_form.mpr fun period member => ⟨_, given, member⟩
  · simp

theorem shifted_passes {findings : List (Finding Value)} {d : DurationValue}
    (given : .value (.duration d) ∈ findings) (sign : Int) : Passes findings (shifted d sign) :=
  (passes_made _).mpr fun _ member => ⟨_, given, member⟩

theorem date_at_time_carries : Carries dateAtTime := by
  intro findings
  unfold dateAtTime
  split
  · exact timed_passes (by simp) _
  · simp

theorem time_on_date_carries : Carries timeOnDate := by
  intro findings
  unfold timeOnDate
  split
  · exact timed_passes (by simp) _
  · simp

theorem Shifts.carries {produce : List (Finding Value) → Produced} (shifts : Shifts produce) :
    Carries produce := by
  intro findings
  rcases shifts findings with same | ⟨d, sign, found, same⟩
  · rw [same]
    simp
  · rw [same]
    exact shifted_passes ((found _).mpr rfl) sign

theorem range_carries : Carries range := by
  intro findings
  unfold range
  split
  · rename_i a n b
    refine (passes_made _).mpr fun period member => ?_
    rcases List.mem_append.mp member with start | stop
    · exact ⟨.datetime a, by simp, start⟩
    · exact ⟨.datetime b, by simp, stop⟩
  · simp

theorem combined_rules_carry : ∀ r ∈ combinedRules, Carries r.produce := by
  simp only [combinedRules, List.forall_mem_cons]
  exact ⟨date_at_time_carries, time_on_date_carries, in_duration_shifts.carries,
    (duration_then_shifts _).carries, (duration_then_shifts _).carries,
    range_carries, range_carries, by simp⟩

theorem rules_carry (readings : Readings) : ∀ r ∈ rules readings, Carries r.produce := by
  intro r member
  simp only [rules, List.mem_append] at member
  rcases member with (day | time) | pair
  · exact day_rules_carry readings r day
  · exact time_rules_carry r time
  · exact combined_rules_carry r pair

end Datetimes

/-! Rules for durations. -/

namespace Durations

theorem descends_duration {d : DurationValue} (descends : d.period.Descends) :
    (Value.duration d).Descends :=
  List.forall_mem_singleton.mpr descends

theorem counted_descends (findings : List (Finding Value)) (v : Value)
    (ran : counted findings = .ok (some v)) : v.Descends := by
  unfold counted at ran
  split at ran
  · split at ran
    · cases ran
      exact descends_duration (Period.descends_single _)
    · cases ran
  · cases ran

theorem single_descends (findings : List (Finding Value)) (v : Value)
    (ran : single findings = .ok (some v)) : v.Descends := by
  unfold single at ran
  split at ran
  · cases ran
    exact descends_duration (Period.descends_single _)
  · cases ran

theorem half_hour_descends (findings : List (Finding Value)) (v : Value)
    (ran : halfHour findings = .ok (some v)) : v.Descends := by
  unfold halfHour at ran
  split at ran
  · cases ran
    exact descends_duration (Period.descends_single _)
  · cases ran

theorem merge_eq_some {a b d : DurationValue} (merged : merge a b = .ok (some d)) :
    d = { period := a.period ++ b.period, precision := a.precision } ∧
      ∃ coarsest finest, b.period.coarsest? = some coarsest ∧ a.period.finest? = some finest ∧
        coarsest.size < finest.size := by
  unfold merge at merged
  split at merged
  · rename_i coarsest finest most least
    split at merged
    · cases merged
    · rename_i apart
      cases merged
      exact ⟨rfl, coarsest, finest, most, least, by omega⟩
  · cases merged

/-- A part goes before finer ones. -/
theorem merge_single {g : Grain} {n : Int} {b : DurationValue} (some : b.period ≠ [])
    (finer : ∀ part ∈ b.period, part.1.size < g.size) :
    merge { period := [(g, n)] } b =
      .ok (Option.some { period := (g, n) :: b.period }) := by
  obtain ⟨part, listed, coarsest⟩ := Period.exists_coarsest some
  have less := finer part listed
  simp only [merge, coarsest, Period.finest?, List.foldl_nil, if_neg (Nat.not_le.mpr less)]
  rfl

theorem composite_eq_some {a b : DurationValue} {m : Pattern.Match} {v : Value}
    (ran : composite [.value (.duration a), .text m, .value (.duration b)] = .ok (some v)) :
    ∃ d, v = .duration d ∧ merge a b = .ok (some d) := by
  obtain ⟨merged, joined, made⟩ := (bind_ok_iff _ _ _).mp ran
  obtain ⟨d, found, value⟩ := Option.map_eq_some_iff.mp (Except.ok.inj made)
  exact ⟨d, value.symm, by rw [joined, found]⟩

theorem composite_descends {name : String} {p : Pattern} :
    Keeps Value.Descends
      ⟨name, [Test.duration Test.any, .text p, Test.duration Test.any], composite⟩ := by
  intro text findings v fits ran
  obtain ⟨x, y, z, same, left, middle, right⟩ := findings_three fits
  obtain ⟨a, first, -, descendsA⟩ := fits_of .duration left
  obtain ⟨m, between, -⟩ := fits_text middle
  obtain ⟨b, second, -, descendsB⟩ := fits_of .duration right
  subst same first between second
  obtain ⟨d, rfl, merged⟩ := composite_eq_some (m := m) ran
  obtain ⟨rfl, coarsest, finest, most, least, apart⟩ := merge_eq_some merged
  have before := List.forall_mem_singleton.mp descendsA
  have after := List.forall_mem_singleton.mp descendsB
  exact descends_duration (before.append after least most apart)

theorem approximately_carries : Carries approximately := by
  intro findings
  unfold approximately
  split
  · rename_i m d
    exact (passes_made _).mpr fun period member => ⟨.duration d, by simp, member⟩
  · simp

theorem rules_descend : ∀ r ∈ rules, Keeps Value.Descends r := by
  simp only [rules, List.forall_mem_cons]
  exact ⟨keeps_of_carries (carries_of_yields grain_yields (by decide)),
    keeps_of_made counted_descends, keeps_of_made single_descends, keeps_of_made half_hour_descends,
    composite_descends, keeps_of_carries approximately_carries, by simp⟩

end Durations

theorem rules_with_descend (readings : Readings) :
    ∀ r ∈ rulesWith readings, Keeps Value.Descends r := by
  have plain {d : Dimension} {r : Rule Value} (yields : Yields d r.produce)
      (other : d ≠ .duration ∧ d ≠ .datetime) : Keeps Value.Descends r :=
    keeps_of_carries (carries_of_yields yields other)
  intro r member
  simp only [rulesWith, List.mem_append] at member
  rcases member with (((((number | ordinal) | temperature) | percentage) | money) | duration) | time
  · exact plain (Numbers.rules_yield readings r number) (by decide)
  · exact plain (Ordinals.rules_yield readings r ordinal) (by decide)
  · exact plain (Measures.temperature_rules_yield r temperature) (by decide)
  · exact plain (Measures.percentage_rules_yield r percentage) (by decide)
  · rcases Money.rules_yield readings r money with unit | amount
    · exact plain unit (by decide)
    · exact plain amount (by decide)
  · exact Durations.rules_descend r duration
  · exact keeps_of_carries (Datetimes.rules_carry readings r time)

/-- All periods of a derivation tree go from coarse to fine. -/
theorem derives_descends {rs : RuleSet Value} {readings : Readings} {text : Array Char}
    {node : Node Value} (english : rs.rules = rulesWith readings) (derives : Derives rs text node) :
    node.value.Descends := by
  apply derives_keeps _ derives
  rw [english]
  exact rules_with_descend readings

end English

end Reckon

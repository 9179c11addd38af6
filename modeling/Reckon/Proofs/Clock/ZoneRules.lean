import Reckon.Clock.ZoneTable
import Reckon.Proofs.Clock.Changes

/-!
# Eras and seasons

A zone whose eras last longer than nine days is regular, and so is a zone with a season of daylight
saving in every year, which alternates between two offsets.
-/

set_option autoImplicit false

namespace Reckon

open LocalTime

namespace Zone

variable {z : Zone}

/-! Eras. -/

def eraOffset (later : Int) : List Era → Int → Int
  | [], _ => later
  | e :: rest, instant => if instant < e.ends.ticks then e.offset else eraOffset later rest instant

theorem offset_at_eq_era_offset (season : z.season = none) (instant : Int) :
    z.offsetAt instant = eraOffset z.standard z.eras instant := by
  rw [offsetAt, seasonalOffset, season]
  induction z.eras with
  | nil => rfl
  | cons e rest ih =>
      rw [eraOffset]
      by_cases inside : instant < e.ends.ticks
      · simp [inside]
      · simp only [inside, decide_false, List.find?_cons_of_neg, not_false_eq_true,
          Bool.false_eq_true, if_false]
        exact ih

theorem era_offset_mem (later : Int) (eras : List Era) (instant : Int) :
    eraOffset later eras instant ∈ later :: eras.map (·.offset) := by
  induction eras with
  | nil => simp [eraOffset]
  | cons e rest ih =>
      rw [eraOffset]
      split
      · simp
      · rcases List.mem_cons.mp ih with same | inside
        · simp [same]
        · exact List.mem_cons_of_mem _ (List.mem_cons_of_mem _ inside)

theorem era_offset_early (later : Int) (eras : List Era) {i j : Int}
    (here : ∀ e ∈ eras, i < e.ends.ticks) (there : ∀ e ∈ eras, j < e.ends.ticks) :
    eraOffset later eras i = eraOffset later eras j := by
  cases eras with
  | nil => rfl
  | cons e rest =>
      rw [eraOffset, eraOffset, if_pos (here e List.mem_cons_self),
        if_pos (there e List.mem_cons_self)]

theorem era_offset_lone (later : Int) (eras : List Era)
    (spaced : eras.Pairwise fun a b => a.ends.ticks + 9 * ticksPerDay ≤ b.ends.ticks) (i : Int) :
    ∃ change, ∀ j, i ≤ j → j ≤ i + 9 * ticksPerDay → eraOffset later eras j =
      if j < change then eraOffset later eras i
      else eraOffset later eras (i + 9 * ticksPerDay) := by
  induction eras with
  | nil => exact ⟨i, fun j _ _ => by simp [eraOffset]⟩
  | cons e rest ih =>
      obtain ⟨after, others⟩ := List.pairwise_cons.mp spaced
      by_cases ended : e.ends.ticks ≤ i
      · obtain ⟨change, offsets⟩ := ih others
        have past : ∀ j, i ≤ j → eraOffset later (e :: rest) j = eraOffset later rest j := by
          intro j low
          rw [eraOffset, if_neg (by omega)]
        refine ⟨change, fun j low high => ?_⟩
        rw [past j low, past i le_rfl, past _ (le_trans low high)]
        exact offsets j low high
      · refine ⟨e.ends.ticks, fun j low high => ?_⟩
        by_cases inside : j < e.ends.ticks
        · rw [if_pos inside, eraOffset, eraOffset, if_pos inside, if_pos (by omega)]
        · rw [if_neg inside, eraOffset, eraOffset, if_neg inside, if_neg (by omega)]
          apply era_offset_early
          · intro other member
            have := after other member
            omega
          · intro other member
            have := after other member
            omega

/-- A change of the offset is the end of an era. -/
theorem era_offset_change (later : Int) (eras : List Era) {change : Int}
    (changes : eraOffset later eras (change - 1) ≠ eraOffset later eras change) :
    ∃ e ∈ eras, change = e.ends.ticks := by
  induction eras with
  | nil => exact absurd rfl changes
  | cons e rest ih =>
      rw [eraOffset, eraOffset] at changes
      by_cases before : change < e.ends.ticks
      · rw [if_pos before, if_pos (by omega)] at changes
        exact absurd rfl changes
      · by_cases ends : change - 1 < e.ends.ticks
        · exact ⟨e, List.mem_cons_self, by omega⟩
        · rw [if_neg before, if_neg ends] at changes
          obtain ⟨other, member, same⟩ := ih changes
          exact ⟨other, List.mem_cons_of_mem _ member, same⟩

theorem regular_of_eras (season : z.season = none)
    (spaced : z.eras.Pairwise fun a b => a.ends.ticks + 9 * ticksPerDay ≤ b.ends.ticks)
    (low high : Int) (bounds : ∀ o ∈ z.standard :: z.eras.map (·.offset), low ≤ o ∧ o ≤ high)
    (short : -86400 < low ∧ high < 86400) (near : high < low + 43200) : z.Regular := by
  have known : ∀ i, low ≤ z.offsetAt i ∧ z.offsetAt i ≤ high := by
    intro i
    rw [offset_at_eq_era_offset season]
    exact bounds _ (era_offset_mem _ _ i)
  refine ⟨fun i => ?_, fun i j => ?_, fun i => ?_⟩
  · have := known i
    omega
  · have := known i
    have := known j
    omega
  · simp only [offset_at_eq_era_offset season]
    exact era_offset_lone z.standard z.eras spaced i

/-! Seasons. -/

def yearAt (z : Zone) (instant : Int) : Int :=
  (LocalTime.mk (instant + z.standard * ticksPerSecond)).date.year

theorem year_at_bounds (z : Zone) (instant : Int) :
    Date.daysBeforeYear (z.yearAt instant) * ticksPerDay ≤
        instant + z.standard * ticksPerSecond ∧
      instant + z.standard * ticksPerSecond <
        Date.daysBeforeYear (z.yearAt instant + 1) * ticksPerDay := by
  have bounds := Date.year_of_day_holds ((instant + z.standard * ticksPerSecond) / ticksPerDay)
  have same : z.yearAt instant =
    Date.yearOfDay ((instant + z.standard * ticksPerSecond) / ticksPerDay) := rfl
  rw [← same] at bounds
  rw [ticks_per_day_eq] at *
  omega

theorem year_at_mono (z : Zone) {i j : Int} (le : i ≤ j) : z.yearAt i ≤ z.yearAt j := by
  obtain ⟨start, -⟩ := year_at_bounds z i
  obtain ⟨-, stop⟩ := year_at_bounds z j
  by_contra backward
  have := Date.days_before_year_mono (show z.yearAt j + 1 ≤ z.yearAt i by omega)
  rw [ticks_per_day_eq] at *
  omega

/-- Two changes of every year, more than nine days apart and as far from the ends of the year. -/
structure Yearly (z : Zone) (first second : Change) : Prop where
  early : ∀ year, (Date.daysBeforeYear year + 9) * ticksPerDay ≤
    first.instant year + z.standard * ticksPerSecond
  apart : ∀ year, first.instant year + 9 * ticksPerDay < second.instant year
  late : ∀ year, second.instant year + z.standard * ticksPerSecond ≤
    (Date.daysBeforeYear (year + 1) - 9) * ticksPerDay

/-- A clock that is changed twice a year. -/
structure Alternates (z : Zone) (first second : Change) (outer inner : Int) : Prop where
  yearly : z.Yearly first second
  offsets : ∀ j, z.offsetAt j =
    if first.instant (z.yearAt j) ≤ j ∧ j < second.instant (z.yearAt j) then inner else outer

variable {first second : Change} {outer inner : Int}

theorem Alternates.lone (alternates : z.Alternates first second outer inner) (i : Int) :
    ∃ change, ∀ j, i ≤ j → j ≤ i + 9 * ticksPerDay →
      z.offsetAt j = if j < change then z.offsetAt i else z.offsetAt (i + 9 * ticksPerDay) := by
  obtain ⟨⟨early, apart, late⟩, offsets⟩ := alternates
  generalize last : i + 9 * ticksPerDay = k
  simp only [ticks_per_day_eq] at early apart late last
  by_cases same : z.yearAt k = z.yearAt i
  · -- in one year: the first change that is not before the nine days, if any
    have between : ∀ j, i ≤ j → j ≤ k → z.yearAt j = z.yearAt i := by
      intro j low high
      have := year_at_mono z low
      have := year_at_mono z high
      omega
    have apart := apart (z.yearAt i)
    refine ⟨if i < first.instant (z.yearAt i) then first.instant (z.yearAt i)
      else second.instant (z.yearAt i), fun j low high => ?_⟩
    rw [offsets, offsets, offsets, between j low high, same]
    split_ifs <;> omega
  · -- across a year's end: no change on either side
    have outside : ∀ j, i ≤ j → j ≤ k → z.offsetAt j = outer := by
      intro j low high
      obtain ⟨start, stop⟩ := year_at_bounds z j
      obtain ⟨-, stopFirst⟩ := year_at_bounds z i
      obtain ⟨startLast, -⟩ := year_at_bounds z k
      have growsFirst := year_at_mono z low
      have growsLast := year_at_mono z high
      have := early (z.yearAt j)
      have := late (z.yearAt j)
      rw [ticks_per_day_eq] at *
      rw [offsets, if_neg]
      by_cases begun : z.yearAt j = z.yearAt i
      · have := Date.days_before_year_mono (show z.yearAt j + 1 ≤ z.yearAt k by omega)
        rw [← begun] at stopFirst
        omega
      · have := Date.days_before_year_mono (show z.yearAt i + 1 ≤ z.yearAt j by omega)
        omega
    refine ⟨i, fun j low high => ?_⟩
    rw [outside j low high, outside i le_rfl (by omega), outside k (by omega) le_rfl, ite_self]

/-- A change of the offset is one of the two of its year. -/
theorem Alternates.change (alternates : z.Alternates first second outer inner) {change : Int}
    (changes : z.offsetAt (change - 1) ≠ z.offsetAt change) :
    change = first.instant (z.yearAt change) ∧ z.offsetAt change = inner ∨
      change = second.instant (z.yearAt change) ∧ z.offsetAt change = outer := by
  obtain ⟨⟨early, apart, late⟩, offsets⟩ := alternates
  have day : ticksPerDay = 86400000000 := rfl
  obtain ⟨start, stop⟩ := year_at_bounds z change
  obtain ⟨startBefore, stopBefore⟩ := year_at_bounds z (change - 1)
  have grows := year_at_mono z (show change - 1 ≤ change by omega)
  by_cases same : z.yearAt (change - 1) = z.yearAt change
  · rw [offsets, offsets, same] at changes
    rw [offsets]
    split_ifs at * <;> omega
  · -- in the first microsecond of a year
    refine absurd ?_ changes
    have := Date.days_before_year_mono (show z.yearAt (change - 1) + 1 ≤ z.yearAt change by omega)
    have := early (z.yearAt change)
    have := late (z.yearAt (change - 1))
    rw [day] at *
    rw [offsets, offsets, if_neg (by omega), if_neg (by omega)]

theorem Alternates.regular (alternates : z.Alternates first second outer inner)
    (short : (-86400 < outer ∧ outer < 86400) ∧ -86400 < inner ∧ inner < 86400)
    (near : outer < inner + 43200 ∧ inner < outer + 43200) : z.Regular := by
  refine ⟨fun i => ?_, fun i j => ?_, alternates.lone⟩
  · rw [alternates.offsets]
    split
    · exact short.2
    · exact short.1
  · rw [alternates.offsets, alternates.offsets]
    split_ifs <;> omega

/-! The Sundays of the changes. -/

theorem day_number_month_length (year month : Int) :
    Date.dayNumber ⟨year, month, Date.monthLength year month⟩ =
      Date.dayNumber ⟨year, month, 1⟩ + (Date.monthLength year month - 1) := by
  simp only [Date.dayNumber]
  omega

theorem day_number_bounds (c : Change) (year : Int) :
    Date.dayNumber ⟨year, c.month, 1⟩ ≤ c.dayNumber year ∧
      c.dayNumber year ≤ Date.dayNumber ⟨year, c.month, Date.monthLength year c.month⟩ := by
  obtain ⟨low, high⟩ := Date.month_length_bounds year c.month
  rw [Change.dayNumber, day_number_month_length]
  simp only [Date.weekdayOf]
  cases c.sunday with
  | first =>
      simp only
      omega
  | second =>
      simp only
      omega
  | last =>
      simp only
      omega

/-- Two changes are far enough apart if there is a month between theirs, and before and after. -/
theorem yearly_of_months (z : Zone)
    (months : 2 ≤ first.month ∧ first.month + 2 ≤ second.month ∧ second.month ≤ 11)
    (hours : ∀ c ∈ [first, second], -86400 ≤ c.seconds - c.offset + z.standard ∧
      c.seconds - c.offset + z.standard ≤ 86400) : z.Yearly first second := by
  obtain ⟨low, between, high⟩ := months
  simp only [List.forall_mem_cons] at hours
  obtain ⟨firstHours, secondHours, -⟩ := hours
  have firstDay := day_number_bounds first
  have secondDay := day_number_bounds second
  have january : ∀ year, Date.daysBeforeMonth year 2 = 31 := fun _ => rfl
  have lengths := Date.month_length_bounds
  refine ⟨fun year => ?_, fun year => ?_, fun year => ?_⟩
  · have opened := Date.days_before_month_mono year (show (1 : Int) ≤ 2 by decide) low (by omega)
    rw [january] at opened
    have := firstDay year
    simp only [Date.dayNumber] at *
    rw [Change.instant, ticks_per_day_eq, ticksPerSecond]
    omega
  · have := Date.days_before_month_mono year (show 1 ≤ first.month + 1 + 1 by omega)
      (show first.month + 1 + 1 ≤ second.month by omega) (by omega)
    rw [Date.days_before_month_succ year (by omega) (by omega),
      Date.days_before_month_succ year (by omega) (by omega)] at this
    have := lengths year (first.month + 1)
    have := firstDay year
    have := secondDay year
    simp only [Date.dayNumber] at *
    rw [Change.instant, Change.instant, ticks_per_day_eq, ticksPerSecond]
    omega
  · have := Date.days_before_month_mono year (show 1 ≤ second.month + 1 by omega)
      (show second.month + 1 ≤ 12 by omega) (by omega)
    have whole := Date.days_before_month_thirteen year
    rw [show (13 : Int) = 12 + 1 by rfl, Date.days_before_month_succ year (by decide) (by decide)]
      at whole
    rw [Date.days_before_month_succ year (by omega) (by omega)] at this
    have := lengths year 12
    have := secondDay year
    simp only [Date.dayNumber] at *
    rw [Change.instant, ticks_per_day_eq, ticksPerSecond]
    omega

theorem offset_at_of_season {s : Season} (season : z.season = some s) (eras : z.eras = [])
    (instant : Int) : z.offsetAt instant =
      if Season.covers s (z.yearAt instant) instant then z.standard + s.saving else z.standard := by
  rw [offsetAt, eras, seasonalOffset, season]
  rfl

/-- A season that begins and ends in one year. -/
theorem alternates_of_summer {s : Season} (season : z.season = some s) (eras : z.eras = [])
    (yearly : z.Yearly s.starts s.ends) :
    z.Alternates s.starts s.ends z.standard (z.standard + s.saving) := by
  refine ⟨yearly, fun j => ?_⟩
  have apart := yearly.apart (z.yearAt j)
  rw [ticks_per_day_eq] at apart
  rw [offset_at_of_season season eras]
  simp only [Season.covers]
  simp only [show s.starts.instant (z.yearAt j) < s.ends.instant (z.yearAt j) by omega, if_true,
    Bool.and_eq_true, decide_eq_true_eq]

theorem regular_of_summer {s : Season} (season : z.season = some s) (eras : z.eras = [])
    (yearly : z.Yearly s.starts s.ends) (short : -43200 < z.standard ∧ z.standard < 43200)
    (saving : 0 ≤ s.saving ∧ s.saving < 43200) : z.Regular :=
  (alternates_of_summer season eras yearly).regular (by omega) (by omega)

theorem regular_of_fixed (name : String) {offset : Int}
    (short : -86400 < offset ∧ offset < 86400) : (fixed name offset).Regular :=
  regular_of_eras rfl .nil offset offset (by simp [fixed]) short (by omega)

theorem tokyo_regular : tokyo.Regular :=
  regular_of_eras rfl (by decide +kernel) 32400 36000 (by decide) (by decide) (by decide)

theorem paris_regular : paris.Regular :=
  regular_of_summer rfl rfl (yearly_of_months _ (by decide) (by decide)) (by decide) (by decide)

theorem new_york_regular : newYork.Regular :=
  regular_of_summer rfl rfl (yearly_of_months _ (by decide) (by decide)) (by decide) (by decide)

theorem beirut_regular : beirut.Regular :=
  regular_of_summer rfl rfl (yearly_of_months _ (by decide) (by decide)) (by decide) (by decide)

end Zone

def Moment.beirut (month day hour : Int) : Moment :=
  ⟨Zone.beirut, LocalTime.make ⟨2013, month, day⟩ hour 0 0 0, false⟩

end Reckon

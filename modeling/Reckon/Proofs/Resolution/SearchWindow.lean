import Mathlib.Data.Int.LeastGreatest
import Reckon.Proofs.Resolution.FirstOccurrence

/-!
# How far a date is looked for

A day of the year comes on every weekday within 12 years, and 29 February within 40. A search that
goes 28 years ahead reaches every date but a 29 February whose weekday comes later, because one of
these years leaves out its leap day.
-/

set_option autoImplicit false

namespace Reckon

open Sequencing Moment Zone

namespace PartialDate

/-- The first of all dates from another one on that have the fields that a partial date gives. -/
structure ComesFirst (p : PartialDate) (ref d : Date) : Prop where
  fields : p.Matches d
  after : ref.dayNumber ≤ d.dayNumber
  first : ∀ e, p.Matches e → ref.dayNumber ≤ e.dayNumber → d.dayNumber ≤ e.dayNumber

variable {p : PartialDate} {ref d : Date}

theorem exists_comes_first {e : Date} (fields : p.Matches e)
    (after : ref.dayNumber ≤ e.dayNumber) : ∃ d, p.ComesFirst ref d := by
  obtain ⟨n, ⟨d, matched, rfl, notBefore⟩, least⟩ := Int.exists_least_of_bdd
    (P := fun n => ∃ d, p.Matches d ∧ d.dayNumber = n ∧ ref.dayNumber ≤ n)
    ⟨ref.dayNumber, fun n ⟨_, _, _, later⟩ => later⟩ ⟨_, e, fields, rfl, after⟩
  exact ⟨d, matched, notBefore, fun e other later => least _ ⟨e, other, rfl, later⟩⟩

theorem ComesFirst.year_le (comes : p.ComesFirst ref d) {e : Date} (fields : p.Matches e)
    (after : ref.dayNumber ≤ e.dayNumber) : d.year ≤ e.year := by
  by_contra earlier
  have before := (fields.proper.day_number_lt_iff comes.fields.proper).mpr
    (.inl (not_le.mp earlier))
  have first := comes.first e fields after
  omega

theorem ComesFirst.occurs_first (comes : p.ComesFirst ref d) (window : p.InWindow ref d) :
    p.OccursFirst ref d :=
  ⟨⟨comes.fields, window, comes.after⟩, fun e other => comes.first e other.fields other.after⟩

/-- Two dates that occur first are the same. -/
theorem OccursFirst.unique {e : Date} (one : p.OccursFirst ref d) (other : p.OccursFirst ref e) :
    d = e :=
  one.occurs.fields.proper.eq_of_day_number other.occurs.fields.proper
    (le_antisymm (one.first e other.occurs) (other.first d one.occurs))

/-! The years in which a day of the year comes on the weekday that it has in one of them. -/

variable {month day year : Int} {weekday : Option Int}

theorem Matches.of_year {other : Int}
    (fields : Matches { month := some month, day := some day, weekday } ⟨year, month, day⟩)
    (proper : (Date.mk other month day).Proper)
    (same : (Date.mk other month day).weekday = (Date.mk year month day).weekday) :
    Matches { month := some month, day := some day, weekday } ⟨other, month, day⟩ :=
  ⟨proper, by simp, by simp, by simp, fun w wanted => same.trans (fields.weekday w wanted)⟩

theorem exists_later_day
    (fields : Matches { month := some month, day := some day, weekday } ⟨year, month, day⟩)
    (notLeapDay : ¬ (month = 2 ∧ day = 29)) (now : Int) :
    ∃ y, now < y ∧ y ≤ now + 12 ∧
      Matches { month := some month, day := some day, weekday } ⟨y, month, day⟩ := by
  have months := fields.proper.month
  have weekdays := Date.weekday_bounds ⟨year, month, day⟩
  obtain ⟨y, after, within, same⟩ :=
    Date.exists_weekday months.1 months.2 day now weekdays.1 weekdays.2
  exact ⟨y, after, within, fields.of_year (fields.proper.of_year notLeapDay y) same⟩

theorem exists_later_leap_day
    (fields : Matches { month := some 2, day := some 29, weekday } ⟨year, 2, 29⟩) (now : Int) :
    ∃ y, now < y ∧ y ≤ now + 40 ∧
      Matches { month := some 2, day := some 29, weekday } ⟨y, 2, 29⟩ := by
  have weekdays := Date.weekday_bounds ⟨year, 2, 29⟩
  obtain ⟨y, after, within, leap, same⟩ := Date.exists_leap_day now weekdays.1 weekdays.2
  exact ⟨y, after, within, fields.of_year ((Date.proper_leap_day y).mpr leap) same⟩

theorem exists_later_leap_day_or_skips
    (fields : Matches { month := some 2, day := some 29, weekday } ⟨year, 2, 29⟩) (now : Int) :
    (∃ y, now < y ∧ y ≤ now + 28 ∧ Date.SkipsLeapDay y) ∨ ∃ y, now < y ∧ y ≤ now + 28 ∧
      Matches { month := some 2, day := some 29, weekday } ⟨y, 2, 29⟩ := by
  have weekdays := Date.weekday_bounds ⟨year, 2, 29⟩
  rcases Date.exists_leap_day_or_skips now weekdays.1 weekdays.2 with
    skips | ⟨y, after, within, leap, same⟩
  · exact .inl skips
  · exact .inr ⟨y, after, within, fields.of_year ((Date.proper_leap_day y).mpr leap) same⟩

/-! The first date from a day on. -/

theorem ComesFirst.year_le_of_later (comes : p.ComesFirst ref d) (here : ref.Proper) {last : Int}
    (later : ∃ y, ref.year < y ∧ y ≤ last ∧ p.Matches ⟨y, month, day⟩) : d.year ≤ last := by
  obtain ⟨y, after, within, fields⟩ := later
  have follows := (here.day_number_lt_iff fields.proper).mpr (.inl after)
  exact le_trans (comes.year_le fields follows.le) within

theorem exists_comes_first_of_later (here : ref.Proper) {last : Int}
    (later : ∃ y, ref.year < y ∧ y ≤ last ∧ p.Matches ⟨y, month, day⟩) :
    ∃ d, p.ComesFirst ref d ∧ d.year ≤ last := by
  obtain ⟨y, after, within, fields⟩ := later
  have follows := (here.day_number_lt_iff fields.proper).mpr (.inl after)
  obtain ⟨d, comes⟩ := exists_comes_first fields follows.le
  exact ⟨d, comes, comes.year_le_of_later here ⟨y, after, within, fields⟩⟩

/-- A day of the year that has the wanted weekday somewhere has it within 12 years, or if it is
29 February within 40, and within 28 unless one of these years leaves out its leap day. -/
theorem exists_comes_first_within (here : ref.Proper)
    (somewhere : ∃ d, Matches { month := some month, day := some day, weekday } d) :
    ∃ d, ComesFirst { month := some month, day := some day, weekday } ref d ∧
      d.year ≤ ref.year + 40 ∧ (ref.year + 12 < d.year → month = 2 ∧ day = 29) ∧
      (ref.year + 28 < d.year →
        ∃ y, ref.year < y ∧ y ≤ ref.year + 28 ∧ Date.SkipsLeapDay y) := by
  obtain ⟨⟨year, inMonth, onDay⟩, fields⟩ := somewhere
  obtain rfl : month = inMonth := (fields.month month rfl).symm
  obtain rfl : day = onDay := (fields.day day rfl).symm
  by_cases leapDay : month = 2 ∧ day = 29
  · obtain ⟨rfl, rfl⟩ := leapDay
    obtain ⟨d, comes, within⟩ :=
      exists_comes_first_of_later here (exists_later_leap_day fields ref.year)
    refine ⟨d, comes, within, fun _ => ⟨rfl, rfl⟩, fun late => ?_⟩
    rcases exists_later_leap_day_or_skips fields ref.year with skips | soon
    · exact skips
    · exact absurd (comes.year_le_of_later here soon) (not_le.mpr late)
  · obtain ⟨d, comes, within⟩ :=
      exists_comes_first_of_later here (exists_later_day fields leapDay ref.year)
    exact ⟨d, comes, by omega, fun late => by omega, fun late => by omega⟩

end PartialDate

namespace TimeForm

open PartialDate

theorem fits_field_of_matches {month day : Int} {weekday : Option Int} {d : Date}
    (fields : Matches { month := some month, day := some day, weekday } d) :
    fitsField month = true ∧ fitsField day = true := by
  have months := fields.proper.month
  have days := fields.proper.day
  have length := (Date.month_length_bounds d.year d.month).2
  rw [fields.month month rfl] at months
  rw [fields.day day rfl] at days
  rw [fits_field_iff, fits_field_iff]
  omega

theorem finds_comes_first {p : PartialDate} {ref : Moment} {d : Date}
    {search : Except Failure (Option Moment)} (finds : p.Finds ref search)
    (comes : p.ComesFirst ref.date d) :
    (p.InWindow ref.date d → search = .ok (some (midnightOf ref.zone d))) ∧
      ((∀ e, p.InWindow ref.date e → e.year < d.year) → search = .ok none) := by
  constructor
  · intro window
    rcases finds with ⟨e, first, found⟩ | ⟨none, -⟩
    · rw [found, first.unique (comes.occurs_first window)]
    · exact absurd (comes.occurs_first window).occurs (none d)
  · intro short
    rcases finds with ⟨e, first, -⟩ | ⟨-, missed⟩
    · have late := comes.year_le first.occurs.fields first.occurs.after
      exact absurd (short e first.occurs.window) (not_lt.mpr late)
    · exact missed

/-- For every reference up to year 9900, a month and a day that have the wanted weekday in some year
resolve to midnight of the first date from the reference on that has it, if that date is at most 28
years ahead. Only a 29 February is further ahead, at most 40 years, and only past a year that leaves
out its leap day; then there is a fault. -/
theorem ground_search_reaches (c : Context) (month day : Int) (weekday : Option Int)
    (regular : c.zone.Regular) (opens : OpensMonth c.zone c.now.date)
    (years : 1 ≤ c.now.date.year ∧ c.now.date.year ≤ 9900)
    (somewhere : ∃ d, Matches { month := some month, day := some day, weekday } d) :
    ∃ d, ComesFirst { month := some month, day := some day, weekday } c.now.date d ∧
      d.year ≤ c.now.date.year + 40 ∧
      (c.now.date.year + 12 < d.year → month = 2 ∧ day = 29) ∧
      (d.year ≤ c.now.date.year + 28 → ∃ m, m = midnightOf c.zone d ∧ m.date = d ∧
        (calendar { month := some month, day := some day, weekday }).ground c c.now =
          .ok (m, .day)) ∧
      (c.now.date.year + 28 < d.year →
        (∃ y, c.now.date.year < y ∧ y ≤ c.now.date.year + 28 ∧ Date.SkipsLeapDay y) ∧
        (calendar { month := some month, day := some day, weekday }).ground c c.now =
          .error (.resolution (.noUpcomingDate month day weekday))) := by
  obtain ⟨d, comes, within, leapDay, skips⟩ := exists_comes_first_within c.now.proper somewhere
  have fits := fits_field_of_matches comes.fields
  obtain ⟨reached, missed⟩ :=
    finds_comes_first (search_years_finds regular opens (by omega) fits) comes
  have notBefore : c.now.date.year ≤ d.year := by
    by_contra earlier
    have before := (comes.fields.proper.day_number_lt_iff c.now.proper).mpr
      (.inl (not_le.mp earlier))
    exact absurd comes.after (not_le.mpr before)
  refine ⟨d, comes, within, leapDay, fun soon => ⟨midnightOf c.zone d, rfl, ?_, ?_⟩,
    fun late => ⟨skips late, ?_⟩⟩
  · exact date_midnight_of regular comes.fields.proper
  · rw [ground, ground_calendar_year, foundOr, reached ⟨notBefore, soon⟩]
    rfl
  · rw [ground, ground_calendar_year, foundOr, missed fun e window => lt_of_le_of_lt window.2 late]
    rfl

/-- The first morning of the years in which the calendar leaves out the leap day of 2100. -/
def centuryEnd : Moment :=
  ⟨Zone.utc, LocalTime.make ⟨2097, 1, 1⟩ 0 0 0 0, false⟩

/-- From there on, 29 February is a Monday first in 2112. -/
theorem century_end_leap_monday : centuryEnd.zone.Regular ∧
    OpensMonth centuryEnd.zone centuryEnd.date ∧
    (1 ≤ centuryEnd.date.year ∧ centuryEnd.date.year ≤ 9900) ∧
    leapMonday.Matches ⟨2112, 2, 29⟩ ∧
    leapMonday.ComesFirst centuryEnd.date ⟨2112, 2, 29⟩ ∧
    ∃ m, (calendar leapMonday).ground { now := centuryEnd } centuryEnd = .ok (m, .day) ∧
      m.date = ⟨2112, 2, 29⟩ := by
  have regular : centuryEnd.zone.Regular := regular_of_fixed "UTC" (by decide)
  have opens : OpensMonth centuryEnd.zone centuryEnd.date :=
    opens_month_of_not_skips (by decide +kernel)
  have years : 1 ≤ centuryEnd.date.year ∧ centuryEnd.date.year ≤ 9900 := by decide +kernel
  have fields : leapMonday.Matches ⟨2112, 2, 29⟩ := by
    refine ⟨⟨by simp, by decide⟩, ?_, ?_, ?_, ?_⟩ <;> decide
  have ran : ((calendar leapMonday).ground { now := centuryEnd } centuryEnd).toOption.map
      (·.1.date) = some ⟨2112, 2, 29⟩ := by decide +kernel
  obtain ⟨d, comes, -, -, soon, -⟩ :=
    ground_search_reaches { now := centuryEnd } 2 29 (some 0) regular opens years ⟨_, fields⟩
  have within : d.year ≤ 2112 := comes.year_le fields (by decide)
  have ahead : d.year ≤ centuryEnd.date.year + 28 := le_trans within (by decide)
  obtain ⟨m, -, rfl, grounds⟩ := soon ahead
  obtain ⟨found, same, date⟩ := exists_ok_of_map ran
  rw [leapMonday, grounds] at same
  cases same
  exact ⟨regular, opens, years, fields, date ▸ comes, m, grounds, date⟩

/-- It is a Sunday again in 2128, which is too far ahead. -/
theorem century_end_leap_sunday : centuryEnd.zone = Zone.utc ∧
    (1 ≤ centuryEnd.date.year ∧ centuryEnd.date.year ≤ 9900) ∧
    Matches { month := some 2, day := some 29, weekday := some 6 } ⟨2128, 2, 29⟩ ∧
    (calendar { month := some 2, day := some 29, weekday := some 6 }).ground { now := centuryEnd }
      centuryEnd = .error (.resolution (.noUpcomingDate 2 29 (some 6))) := by
  refine ⟨rfl, by decide +kernel, ?_, ?_⟩
  · exact ⟨⟨by simp, by decide⟩, by simp, by simp, by simp, by decide⟩
  · rfl

end TimeForm

end Reckon

import Reckon.Proofs.Resolution.Occurrences

/-!
# The first occurrence of a date

A date without a year resolves to its first occurrence from today on, in this year and the next 28,
or without a month in 336 months; it is a fault if there is none. Where the clock skips the midnight
from which years or months are counted, they are counted from the one before, and the last one is
left out, in which no date occurs first if the year has the calendar of that one. The start of the
first month of the calendar may lie before the calendar by UTC, and is then out of range.
-/

set_option autoImplicit false

namespace Reckon

open Sequencing Moment Zone LocalTime

namespace PartialDate

/-- A date that has the fields that a partial date gives. -/
structure Matches (p : PartialDate) (d : Date) : Prop where
  proper : d.Proper
  year : ∀ year ∈ p.year, d.year = year
  month : ∀ month ∈ p.month, d.month = month
  day : ∀ day ∈ p.day, d.day = day
  weekday : ∀ weekday ∈ p.weekday, d.weekday = weekday

/-- The dates among which a date without a year is looked for: those of this year and the next 28,
or without a month those of 336 months from this one on. -/
def InWindow (p : PartialDate) (ref d : Date) : Prop :=
  match p.month with
  | some _ => ref.year ≤ d.year ∧ d.year ≤ ref.year + 28
  | none => ref.monthIndex ≤ d.monthIndex ∧ d.monthIndex < ref.monthIndex + 336

/-- A date that a partial date may mean. -/
structure Occurs (p : PartialDate) (ref d : Date) : Prop where
  fields : p.Matches d
  window : p.InWindow ref d
  after : ref.dayNumber ≤ d.dayNumber

/-- The first of the dates that a partial date may mean. -/
structure OccursFirst (p : PartialDate) (ref d : Date) : Prop where
  occurs : p.Occurs ref d
  first : ∀ e, p.Occurs ref e → d.dayNumber ≤ e.dayNumber

/-- What a search for a date comes to. -/
def Finds (p : PartialDate) (ref : Moment) (search : Except Failure (Option Moment)) : Prop :=
  (∃ d, p.OccursFirst ref.date d ∧ search = .ok (some (midnightOf ref.zone d))) ∨
    (∀ d, ¬ p.Occurs ref.date d) ∧ search = .ok none

end PartialDate

namespace TimeForm

variable {ref : Moment} {weekday : Option Int}

theorem finds_of_first_hit {p : PartialDate} {date : Int → Date} {first : Int} {count : Nat}
    {search : Except Failure (Option Moment)}
    (found : FirstHit (fun i => Date.Upcoming ref.date weekday (date i))
      (fun i => midnightOf ref.zone (date i)) first count search)
    (occurs : ∀ d, p.Occurs ref.date d ↔
      ∃ i, first ≤ i ∧ i < first + count ∧ d = date i ∧ Date.Upcoming ref.date weekday d)
    (increases : ∀ i j, Date.Upcoming ref.date weekday (date i) →
      Date.Upcoming ref.date weekday (date j) → i < j → (date i).dayNumber ≤ (date j).dayNumber) :
    p.Finds ref search := by
  cases found with
  | found i low high hits before =>
      refine .inl ⟨date i, ⟨(occurs _).mpr ⟨i, low, high, rfl, hits⟩, fun e other => ?_⟩, rfl⟩
      obtain ⟨j, after, -, rfl, upcoming⟩ := (occurs e).mp other
      rcases lt_trichotomy i j with later | rfl | earlier
      · exact increases i j hits upcoming later
      · exact le_rfl
      · exact absurd upcoming (before j after earlier)
  | missed misses =>
      refine .inr ⟨fun d other => ?_, rfl⟩
      obtain ⟨i, low, high, rfl, upcoming⟩ := (occurs d).mp other
      exact misses i low high upcoming

theorem month_index_le_of_upcoming {d : Date} (upcoming : Date.Upcoming ref.date weekday d) :
    ref.date.monthIndex ≤ d.monthIndex := by
  by_contra earlier
  have proper := ((Date.is_valid_iff d).mp upcoming.valid).2
  have before := proper.day_number_lt_of_month_index ref.proper (not_le.mp earlier)
  have after := upcoming.after
  omega

theorem year_le_of_upcoming {d : Date} (upcoming : Date.Upcoming ref.date weekday d) :
    ref.date.year ≤ d.year := by
  have months := month_index_le_of_upcoming upcoming
  have here := ref.proper.month
  have there := ((Date.is_valid_iff d).mp upcoming.valid).2.month
  simp only [Date.monthIndex] at months
  omega

theorem year_start_of_day (regular : ref.zone.Regular) :
    ref.startOfDay.date.year = ref.date.year ∨
      ref.startOfDay.date.year = ref.date.year - 1 ∧ ref.date.month = 1 ∧ ref.date.day = 1 ∧
        ref.zone.Skips (midnight (Date.ofMonthIndex ref.date.monthIndex 1)) := by
  have here := ref.proper.month
  have there := ref.startOfDay.proper.month
  rcases month_index_start_of_day regular with same | ⟨before, first, skipped⟩
  · simp only [Date.monthIndex] at same
    omega
  · simp only [skipped, and_true]
    simp only [Date.monthIndex] at before
    omega

theorem upcoming_of_cycle {month day : Int} (years : 1 ≤ ref.date.year ∧ ref.date.year < 9970)
    (opening : ref.date.month = 1 ∧ ref.date.day = 1)
    (same : Date.isLeap ref.date.year = Date.isLeap (ref.date.year + 28) ∧
      (Date.daysBeforeYear (ref.date.year + 28) - Date.daysBeforeYear ref.date.year) % 7 = 0)
    (upcoming : Date.Upcoming ref.date weekday ⟨ref.date.year + 28, month, day⟩) :
    Date.Upcoming ref.date weekday ⟨ref.date.year, month, day⟩ := by
  obtain ⟨proper, weekdays⟩ := Date.same_calendar same.1 same.2 month day
  have there := ((Date.is_valid_iff _).mp upcoming.valid).2
  have here := proper.mpr there
  refine ⟨(Date.is_valid_iff _).mpr ⟨by simp only; omega, here⟩, ?_, ?_⟩
  · have months := here.month
    have days := here.day
    rw [← not_lt, here.day_number_lt_iff ref.proper]
    simp only at months days ⊢
    omega
  · rw [weekdays]
    exact upcoming.weekday

theorem occurs_iff_year {month day : Int} (years : 1 ≤ ref.date.year ∧ ref.date.year < 9970)
    (d : Date) :
    PartialDate.Occurs { month := some month, day := some day, weekday } ref.date d ↔
      ∃ y, ref.date.year ≤ y ∧ y < ref.date.year + (yearWindow + 1 : Nat) ∧ d = ⟨y, month, day⟩ ∧
        Date.Upcoming ref.date weekday d := by
  simp only [yearWindow]
  constructor
  · rintro ⟨⟨proper, -, sameMonth, sameDay, weekdays⟩, ⟨low, high⟩, after⟩
    have inMonth := sameMonth month rfl
    have onDay := sameDay day rfl
    refine ⟨d.year, low, by omega, by rw [← inMonth, ← onDay], ?_⟩
    exact ⟨(Date.is_valid_iff d).mpr ⟨by omega, proper⟩, after, weekdays⟩
  · rintro ⟨y, low, high, rfl, upcoming⟩
    have proper := ((Date.is_valid_iff _).mp upcoming.valid).2
    refine ⟨⟨proper, by simp, by simp, by simp, upcoming.weekday⟩, ?_, upcoming.after⟩
    simp only [PartialDate.InWindow]
    omega

theorem search_years_finds (regular : ref.zone.Regular) (opens : OpensMonth ref.zone ref.date)
    {month day : Int} (years : 1 ≤ ref.date.year ∧ ref.date.year < 9970)
    (fits : fitsField month = true ∧ fitsField day = true) :
    PartialDate.Finds { month := some month, day := some day, weekday } ref
      (searchYears ref.startOfDay month day weekday (yearWindow + 1) ref.startOfDay.date.year) := by
  have today := year_start_of_day regular
  have search := search_years_first_hit regular fits weekday (yearWindow + 1)
    ref.startOfDay.date.year (fun y low high => by
      rw [fits_field_iff]
      simp only [yearWindow] at high
      omega)
  have window : FirstHit (fun y => Date.Upcoming ref.date weekday ⟨y, month, day⟩)
      (fun y => midnightOf ref.zone ⟨y, month, day⟩) ref.date.year (yearWindow + 1)
      (searchYears ref.startOfDay month day weekday (yearWindow + 1)
        ref.startOfDay.date.year) := by
    rcases today with same | ⟨before, january, first, skipped⟩
    · rw [← same]
      exact search
    · have next : ref.date.year = ref.startOfDay.date.year + 1 := by omega
      have last : ref.startOfDay.date.year + (yearWindow + 1 : Nat) = ref.date.year + 28 := by
        simp only [yearWindow]
        omega
      rw [next]
      refine search.shift (fun early => ?_) fun hit => ⟨ref.date.year, by omega, by omega, ?_⟩
      · have := year_le_of_upcoming early
        simp only at this
        omega
      · exact upcoming_of_cycle years ⟨january, first⟩ (opens.comesBack skipped january)
            (last ▸ hit)
  refine finds_of_first_hit window (occurs_iff_year years) fun i j here there lt => ?_
  exact le_of_lt ((((Date.is_valid_iff _).mp here.valid).2.day_number_lt_iff
    ((Date.is_valid_iff _).mp there.valid).2).mpr (.inl lt))

theorem occurs_iff_month {day : Int} (years : 1 ≤ ref.date.year ∧ ref.date.year < 9970) (d : Date) :
    PartialDate.Occurs { day := some day, weekday } ref.date d ↔
      ∃ i, ref.date.monthIndex ≤ i ∧ i < ref.date.monthIndex + monthWindow ∧
        d = Date.ofMonthIndex i day ∧ Date.Upcoming ref.date weekday d := by
  have here := ref.proper.month
  simp only [monthWindow, yearWindow]
  constructor
  · rintro ⟨⟨proper, -, -, sameDay, weekdays⟩, ⟨low, high⟩, after⟩
    have onDay := sameDay day rfl
    have months := proper.month
    refine ⟨d.monthIndex, low, high, by rw [← onDay, proper.of_month_index_month_index], ?_⟩
    simp only [Date.monthIndex] at low high
    exact ⟨(Date.is_valid_iff d).mpr ⟨by omega, proper⟩, after, weekdays⟩
  · rintro ⟨i, low, high, rfl, upcoming⟩
    have proper := ((Date.is_valid_iff _).mp upcoming.valid).2
    refine ⟨⟨proper, by simp, by simp, by simp [Date.ofMonthIndex], upcoming.weekday⟩, ?_,
      upcoming.after⟩
    simp only [PartialDate.InWindow, Date.month_index_of_month_index]
    omega

theorem exists_upcoming_month {day index : Int} (years : 1 ≤ ref.date.year ∧ ref.date.year < 9970)
    (upcoming : Date.Upcoming ref.date weekday (Date.ofMonthIndex index day)) :
    ∃ i, ref.date.monthIndex ≤ i ∧ i < ref.date.monthIndex + 335 ∧
      Date.Upcoming ref.date weekday (Date.ofMonthIndex i day) := by
  have here := ref.proper.month
  have days := ((Date.is_valid_iff _).mp upcoming.valid).2.day
  have length := (Date.month_length_bounds (index / 12) (index % 12 + 1)).2
  have wanted := Date.weekday_bounds (Date.ofMonthIndex index day)
  obtain ⟨y, after, within, weekdays⟩ := Date.exists_weekday (show (1 : Int) ≤ 1 from le_rfl)
    (by decide) day ref.date.year wanted.1 wanted.2
  have january : Date.ofMonthIndex (12 * y) day = ⟨y, 1, day⟩ := by
    simp only [Date.ofMonthIndex, Date.mk.injEq, and_true]
    omega
  have proper : (Date.mk y 1 day).Proper := by
    refine ⟨by simp, days.1, ?_⟩
    change day ≤ 31
    exact le_trans days.2 length
  refine ⟨12 * y, ?_, ?_, ?_⟩
  · simp only [Date.monthIndex]
    omega
  · simp only [Date.monthIndex]
    omega
  · rw [january]
    refine ⟨(Date.is_valid_iff _).mpr ⟨by simp only; omega, proper⟩, ?_, ?_⟩
    · rw [← not_lt, proper.day_number_lt_iff ref.proper]
      simp only
      omega
    · rw [weekdays]
      exact upcoming.weekday

theorem add_months_of_month_start (regular : ref.zone.Regular) (forward : ref.zone.ForwardEarly)
    (opens : OpensMonth ref.zone ref.date) (years : 1 ≤ ref.date.year ∧ ref.date.year < 9970)
    (within : 0 ≤ ref.monthStart.instant)
    (i : Int) (low : 0 ≤ i) (high : i < monthWindow) :
    ∃ m, ref.monthStart.add .month i = .ok m ∧
      m.date.monthIndex = ref.monthStart.date.monthIndex + i ∧ fitsField m.date.year = true := by
  have zone := zone_month_start ref
  have bounds := month_index_month_start_bounds regular opens years
  simp only [monthWindow, yearWindow] at high
  have displayed := displays_month_start regular
  have shown := representable_month_start regular opens years within
  rw [← zone] at regular forward displayed
  obtain ⟨m, added, month⟩ := add_month_month_index regular forward displayed i
    (fun _ => shown) (by omega) (by omega)
  refine ⟨m, added, month, ?_⟩
  have months := m.proper.month
  rw [fits_field_iff]
  simp only [Date.monthIndex] at *
  omega

theorem search_months_finds (regular : ref.zone.Regular) (forward : ref.zone.ForwardEarly)
    (opens : OpensMonth ref.zone ref.date) {day : Int}
    (years : 1 ≤ ref.date.year ∧ ref.date.year < 9970)
    (fits : fitsField day = true) (within : 0 ≤ ref.monthStart.instant) :
    PartialDate.Finds { day := some day, weekday } ref
      (searchMonths ref.startOfDay ref.monthStart day weekday monthWindow 0) := by
  have search := search_months_first_hit regular fits weekday monthWindow 0
    fun i low high => add_months_of_month_start regular forward opens years within i low (by omega)
  rw [Int.add_zero] at search
  have window : FirstHit (fun i => Date.Upcoming ref.date weekday (Date.ofMonthIndex i day))
      (fun i => midnightOf ref.zone (Date.ofMonthIndex i day)) ref.date.monthIndex monthWindow
      (searchMonths ref.startOfDay ref.monthStart day weekday monthWindow 0) := by
    rcases month_index_month_start regular opens with same | ⟨before, -⟩
    · rw [← same]
      exact search
    · have next : ref.date.monthIndex = ref.monthStart.date.monthIndex + 1 := by omega
      rw [next]
      refine search.shift (fun early => ?_) fun hit => ?_
      · have := month_index_le_of_upcoming early
        rw [Date.month_index_of_month_index] at this
        omega
      · obtain ⟨i, after, inside, other⟩ := exists_upcoming_month years hit
        refine ⟨i, by omega, ?_, other⟩
        simp only [monthWindow, yearWindow]
        omega
  refine finds_of_first_hit window (occurs_iff_month years) fun i j here there lt => ?_
  refine le_of_lt (((Date.is_valid_iff _).mp here.valid).2.day_number_lt_of_month_index
    ((Date.is_valid_iff _).mp there.valid).2 ?_)
  rw [Date.month_index_of_month_index, Date.month_index_of_month_index]
  exact lt

def foundOr (search : Except Failure (Option Moment)) (fault : ResolutionFault) :
    Except Failure Moment := do
  (← search).elim (resolutionFault fault) pure

/-- What a partial date is resolved to. -/
def ResolvesTo (p : PartialDate) (ref : Moment) (outcome : Except Failure Moment) : Prop :=
  (∃ d, p.OccursFirst ref.date d ∧ outcome = .ok (midnightOf ref.zone d)) ∨
    (∀ d, ¬ p.Occurs ref.date d) ∧ ∃ fault, outcome = .error (.resolution fault)

theorem resolves_to_of_finds {p : PartialDate} {search : Except Failure (Option Moment)}
    (finds : p.Finds ref search) (fault : ResolutionFault) :
    ResolvesTo p ref (foundOr search fault) := by
  rcases finds with ⟨d, first, rfl⟩ | ⟨none, rfl⟩
  · exact .inl ⟨d, first, rfl⟩
  · exact .inr ⟨none, fault, rfl⟩

theorem ground_calendar_year (month day : Int) (ref : Moment) :
    groundCalendar { month := some month, day := some day, weekday } ref =
      foundOr (searchYears ref.startOfDay month day weekday (yearWindow + 1)
        ref.startOfDay.date.year) (.noUpcomingDate month day weekday) := by
  rw [groundCalendar, foundOr]
  refine bind_congr fun found => ?_
  cases found <;> rfl

theorem ground_calendar_month (day : Int) (ref : Moment) :
    groundCalendar { day := some day, weekday } ref =
      foundOr (searchMonths ref.startOfDay ref.monthStart day weekday monthWindow 0)
        (.noUpcomingDay day weekday) := by
  have start : ref.startOfDay.startOf .month 0 = .ok ref.monthStart := by
    rw [startOf, monthStart]
  rw [groundCalendar, foundOr]
  simp only [start, ok_bind]
  refine bind_congr fun found => ?_
  cases found <;> rfl

theorem ground_calendar_out_of_range (day : Int) (early : ref.monthStart.instant < 0) :
    groundCalendar { day := some day, weekday } ref = .error .outOfRange := by
  have added : ref.monthStart.add .month 0 = .error .outOfRange := by
    rw [add, if_pos rfl, addElapsed, if_neg]
    rw [is_representable_iff]
    exact fun inside => absurd inside.1 (not_le.mpr early)
  rw [ground_calendar_month, foundOr, show monthWindow = 335 + 1 from rfl, searchMonths, added]
  rfl

/-- For every reference before year 9970, a date without a year resolves to midnight of its first
occurrence, or to a fault exactly if there is none. A day without a month is out of range if its
month starts before the calendar by UTC, as January of year 1 does in the zones ahead of UTC. -/
theorem ground_calendar_first (c : Context) (p : PartialDate) (day : Int)
    (regular : c.zone.Regular) (forward : c.zone.ForwardEarly)
    (opens : OpensMonth c.zone c.now.date) (years : 1 ≤ c.now.date.year ∧ c.now.date.year < 9970)
    (partly : p.year = none ∧ p.day = some day)
    (fields : (∀ month ∈ p.month, fitsField month = true) ∧ fitsField day = true) :
    (¬ (p.month = none ∧ c.now.monthStart.instant < 0) →
      (∃ d m, p.OccursFirst c.now.date d ∧ (calendar p).ground c c.now = .ok (m, .day) ∧
        m = midnightOf c.zone d ∧ m.date = d) ∨
      (∀ d, ¬ p.Occurs c.now.date d) ∧
        ∃ fault, (calendar p).ground c c.now = .error (.resolution fault)) ∧
    (p.month = none ∧ c.now.monthStart.instant < 0 →
      c.now.date.year = 1 ∧ c.now.date.month = 1 ∧
        (calendar p).ground c c.now = .error .outOfRange) := by
  obtain ⟨_, month, _, weekday⟩ := p
  obtain ⟨rfl, rfl⟩ := partly
  have grain : PartialDate.grain ⟨none, month, some day, weekday⟩ = .day := rfl
  constructor
  · intro within
    have resolves : ResolvesTo ⟨none, month, some day, weekday⟩ c.now
        (groundCalendar ⟨none, month, some day, weekday⟩ c.now) := by
      cases month with
      | some month =>
          rw [ground_calendar_year]
          exact resolves_to_of_finds
            (search_years_finds regular opens years ⟨fields.1 month rfl, fields.2⟩) _
      | none =>
          rw [ground_calendar_month]
          have start : 0 ≤ c.now.monthStart.instant := not_lt.mp fun early => within ⟨rfl, early⟩
          exact resolves_to_of_finds
            (search_months_finds regular forward opens years fields.2 start) _
    rw [ground]
    rcases resolves with ⟨d, first, found⟩ | ⟨none, fault, missed⟩
    · refine .inl ⟨d, midnightOf c.zone d, first, ?_, rfl, ?_⟩
      · rw [found, ok_bind, grain]
        rfl
      · exact date_midnight_of regular first.occurs.fields.proper
    · exact .inr ⟨none, fault, by rw [missed]; rfl⟩
  · rintro ⟨rfl, early⟩
    obtain ⟨year, january⟩ := opening_of_instant_neg regular opens years early
    refine ⟨year, january, ?_⟩
    rw [ground, ground_calendar_out_of_range day early]
    rfl

/-- A Monday on 29 February. -/
def leapMonday : PartialDate :=
  { month := some 2, day := some 29, weekday := some 0 }

/-- From the day in 2013 on which Beirut skips midnight, 29 February is a Monday first in 2016. -/
theorem leap_monday_occurs_first :
    (beirut 3 31 12).zone.Regular ∧ (beirut 3 31 12).zone.ForwardEarly ∧
    OpensMonth (beirut 3 31 12).zone (beirut 3 31 12).date ∧
    (1 ≤ (beirut 3 31 12).date.year ∧ (beirut 3 31 12).date.year < 9970) ∧
    (leapMonday.year = none ∧ leapMonday.day = some 29) ∧
    (∀ month ∈ leapMonday.month, fitsField month = true) ∧ fitsField 29 = true ∧
    ∃ m, leapMonday.OccursFirst (beirut 3 31 12).date ⟨2016, 2, 29⟩ ∧
      (calendar leapMonday).ground { now := beirut 3 31 12 } (beirut 3 31 12) = .ok (m, .day) ∧
      m.date = ⟨2016, 2, 29⟩ := by
  have regular : (beirut 3 31 12).zone.Regular := beirut_regular
  have forward : (beirut 3 31 12).zone.ForwardEarly := beirut_forward_early
  have opens : OpensMonth (beirut 3 31 12).zone (beirut 3 31 12).date :=
    opens_month_of_not_skips (by decide +kernel)
  have years : 1 ≤ (beirut 3 31 12).date.year ∧ (beirut 3 31 12).date.year < 9970 := by
    decide +kernel
  have month : ∀ month ∈ leapMonday.month, fitsField month = true := by decide
  have ran : ((calendar leapMonday).ground { now := beirut 3 31 12 }
      (beirut 3 31 12)).toOption.map (·.1.date) = some ⟨2016, 2, 29⟩ := by decide +kernel
  obtain ⟨⟨m, grain⟩, found, date⟩ := exists_ok_of_map ran
  refine ⟨regular, forward, opens, years, ⟨rfl, rfl⟩, month, by decide, m, ?_⟩
  rcases (ground_calendar_first { now := beirut 3 31 12 } leapMonday 29 regular forward opens years
    ⟨rfl, rfl⟩ ⟨month, by decide⟩).1 (fun ⟨absent, _⟩ => by cases absent) with
    ⟨d, other, first, grounds, -, same⟩ | ⟨-, fault, missed⟩
  · rw [grounds] at found
    cases found
    rw [← same, date] at first
    exact ⟨first, grounds, date⟩
  · rw [missed] at found
    cases found

/-- An evening of the first month of the calendar in Tokyo, whose clock is ahead of UTC. -/
def tokyoOpening : Moment :=
  ⟨Zone.tokyo, LocalTime.make ⟨1, 1, 5⟩ 21 18 59 0, false⟩

/-- The twentieth of that month is upcoming, but out of range. -/
theorem tokyo_opening_out_of_range : tokyoOpening.zone.Regular ∧ tokyoOpening.zone.ForwardEarly ∧
    OpensMonth tokyoOpening.zone tokyoOpening.date ∧
    PartialDate.Occurs { day := some 20 } tokyoOpening.date ⟨1, 1, 20⟩ ∧
    (calendar { day := some 20 }).ground { now := tokyoOpening } tokyoOpening =
      .error .outOfRange := by
  refine ⟨tokyo_regular, tokyo_forward_early, opens_month_of_not_skips (by decide +kernel),
    ⟨⟨⟨by simp, by decide⟩, ?_, ?_, ?_, ?_⟩, ?_, ?_⟩, ?_⟩
  · simp
  · simp
  · simp
  · simp
  · simp only [PartialDate.InWindow]
    decide +kernel
  · decide +kernel
  · rw [ground, ground_calendar_out_of_range 20 (by decide +kernel)]
    rfl

end TimeForm

end Reckon

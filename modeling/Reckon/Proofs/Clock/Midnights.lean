import Reckon.Proofs.Clock.Counting
import Reckon.Proofs.Clock.Gaps

/-!
# Midnight of a date

Midnight of a date is on the date, also where the clock skips it, and dates are compared with today
as their midnights are.
-/

set_option autoImplicit false

namespace Reckon.Moment

open LocalTime Zone

variable {z : Zone} {ref : Moment}

theorem date_eq {t : LocalTime} {d : Date} (proper : d.Proper)
    (day : t.dayNumber = d.dayNumber) : t.date = d := by
  rw [LocalTime.date, day, proper.of_day_number_day_number]

theorem is_representable_iff (t : LocalTime) :
    t.isRepresentable = true ↔ 0 ≤ t.ticks ∧ t.ticks < 3652059 * ticksPerDay := by
  rw [isRepresentable, Bool.and_eq_true, decide_eq_true_eq, decide_eq_true_eq]
  rfl

theorem proper (m : Moment) : m.date.Proper :=
  proper_date m.reading

theorem instant_near (regular : ref.zone.Regular) :
    ref.reading.ticks - ticksPerDay < ref.instant ∧
      ref.instant < ref.reading.ticks + ticksPerDay := by
  obtain ⟨i, offset⟩ := exists_offset_at ref.zone ref.reading ref.fold
  have short := regular.short i
  rw [instant, Moment.offset, offset, instantUnder]
  simp only [ticks_per_day_eq, ticksPerSecond]
  omega

theorem weekday_eq (m : Moment) : m.weekday = m.date.weekday := by
  rw [Moment.weekday, LocalTime.weekday, Date.weekday, Moment.date, LocalTime.date,
    Date.day_number_of_day_number]

theorem is_representable_midnight {d : Date} (proper : d.Proper) :
    (midnight d).isRepresentable = d.isValid := by
  obtain ⟨starts, stops⟩ := proper.day_number_lt_year
  have opening : Date.daysBeforeYear 1 = 0 := by decide
  have closing : Date.daysBeforeYear 10000 = 3652059 := by decide
  rw [Bool.eq_iff_iff, is_representable_iff, Date.is_valid_iff, midnight]
  simp only [ticks_per_day_eq, proper, and_true]
  constructor
  · intro within
    constructor
    · by_contra early
      have := Date.days_before_year_mono (show d.year + 1 ≤ 1 by omega)
      omega
    · by_contra late
      have := Date.days_before_year_mono (show 10000 ≤ d.year by omega)
      omega
  · intro years
    have := Date.days_before_year_mono years.1
    have := Date.days_before_year_mono (show d.year + 1 ≤ 10000 by omega)
    omega

theorem at_local_near (regular : z.Regular) (t : LocalTime) (fold : Bool) :
    t.ticks - 43200 * ticksPerSecond < (atLocal z t fold).reading.ticks ∧
      (atLocal z t fold).reading.ticks < t.ticks + 43200 * ticksPerSecond := by
  have short := regular.gap_lt t
  by_cases skipped : z.Skips t
  · have positive := skipped.gap_pos
    rw [at_local_of_skips skipped]
    cases fold with
    | false =>
        simp only [Bool.false_eq_true, if_false, ticksPerSecond] at *
        omega
    | true =>
        simp only [if_true, ticksPerSecond] at *
        omega
  · rw [at_local_of_displays regular ((regular.displays_iff t).mpr skipped)]
    simp only [ticksPerSecond]
    omega

theorem le_at_local_true (regular : z.Regular) (t : LocalTime) (fold : Bool) :
    t.ticks ≤ (atLocal z t true).reading.ticks ∧
      (atLocal z t fold).reading.ticks ≤ (atLocal z t true).reading.ticks := by
  by_cases skipped : z.Skips t
  · have positive := skipped.gap_pos
    rw [at_local_of_skips skipped, at_local_of_skips skipped]
    cases fold with
    | false =>
        simp only [Bool.false_eq_true, if_false, if_true]
        omega
    | true =>
        simp only [if_true]
        omega
  · rw [at_local_of_displays regular ((regular.displays_iff t).mpr skipped),
      at_local_of_displays regular ((regular.displays_iff t).mpr skipped)]
    exact ⟨le_rfl, le_rfl⟩

/-- As the clock is put forward before noon, a reading that is moved forward stays on its day. -/
theorem day_number_at_local_true (regular : z.Regular) (forward : z.ForwardEarly) (t : LocalTime) :
    (atLocal z t true).reading.dayNumber = t.dayNumber := by
  by_cases skipped : z.Skips t
  · have early := forward t skipped
    have := at_local_near regular t true
    have := le_at_local_true regular t true
    simp only [LocalTime.dayNumber, ticks_per_day_eq, ticksPerSecond] at *
    omega
  · rw [at_local_of_displays regular ((regular.displays_iff t).mpr skipped)]

/-- Midnight of a date, or the end of the gap in which it lies. -/
def midnightOf (z : Zone) (d : Date) : Moment :=
  atLocal z (midnight d) true

theorem day_number_midnight_of (regular : z.Regular) (d : Date) :
    (midnightOf z d).reading.dayNumber = d.dayNumber := by
  have := at_local_near regular (midnight d) true
  have := le_at_local_true regular (midnight d) true
  have opened : (midnight d).ticks = d.dayNumber * ticksPerDay := rfl
  simp only [midnightOf, LocalTime.dayNumber, ticks_per_day_eq, ticksPerSecond] at *
  omega

theorem date_midnight_of (regular : z.Regular) {d : Date} (proper : d.Proper) :
    (midnightOf z d).date = d :=
  date_eq proper (day_number_midnight_of regular d)

theorem weekday_midnight_of (regular : z.Regular) (d : Date) :
    (midnightOf z d).weekday = d.weekday := by
  rw [Moment.weekday, LocalTime.weekday, day_number_midnight_of regular, Date.weekday]

theorem of_date?_eq {d : Date} (fits : fitsField d.year = true ∧ fitsField d.month = true ∧
    fitsField d.day = true) :
    ofDate? z d = .ok (if d.isValid then some (midnightOf z d) else none) := by
  rw [ofDate?, if_pos (by simp [fits])]
  rfl

theorem start_of_day_eq (m : Moment) : m.startOfDay = atLocal m.zone (midnight m.date) m.fold := by
  have whole := ticks_floor_to ticksPerDay m.reading
  have floor : m.reading.floorTo ticksPerDay = midnight m.date := by
    apply congrArg LocalTime.mk
    rw [Moment.date, LocalTime.date, Date.day_number_of_day_number, LocalTime.dayNumber]
    simp only [floorTo, ticks_per_day_eq] at *
    omega
  rw [startOfDay, withReading, floor]

/-- Midnight of a date is before today's exactly if the date is before that of the reference. -/
theorem is_before_start_of_day (regular : ref.zone.Regular) (d : Date) :
    (midnightOf ref.zone d).isBefore ref.startOfDay = false ↔
      ref.date.dayNumber ≤ d.dayNumber := by
  have today := at_local_near regular (midnight ref.date) ref.fold
  have there := at_local_near regular (midnight d) true
  have opened : ∀ d, (midnight d).ticks = d.dayNumber * ticksPerDay := fun _ => rfl
  rw [isBefore, decide_eq_false_iff_not, not_lt, start_of_day_eq, midnightOf]
  rw [opened] at today there
  rcases lt_trichotomy d.dayNumber ref.date.dayNumber with before | same | after
  · simp only [ticks_per_day_eq, ticksPerSecond] at *
    omega
  · have le := (le_at_local_true regular (midnight d) ref.fold).2
    have midnights : midnight ref.date = midnight d := by
      rw [midnight, midnight, same]
    rw [midnights]
    omega
  · simp only [ticks_per_day_eq, ticksPerSecond] at *
    omega

/-- Midnight of a date is on the date, or on the day before if the clock skips it and there is no
fold. -/
theorem day_number_at_local_midnight (regular : z.Regular) (d : Date) (fold : Bool) :
    (atLocal z (midnight d) fold).reading.dayNumber = d.dayNumber ∨
      (atLocal z (midnight d) fold).reading.dayNumber = d.dayNumber - 1 ∧
        z.Skips (midnight d) ∧ (atLocal z (midnight d) fold).fold = false := by
  have near := at_local_near regular (midnight d) fold
  have opened : (midnight d).ticks = d.dayNumber * ticksPerDay := rfl
  by_cases skipped : z.Skips (midnight d)
  · have unfolded : (atLocal z (midnight d) fold).fold = false := by
      rw [at_local_of_skips skipped]
    simp only [LocalTime.dayNumber, ticks_per_day_eq, ticksPerSecond] at *
    simp only [skipped, unfolded, and_self, and_true]
    omega
  · rw [at_local_of_displays regular ((regular.displays_iff _).mpr skipped)]
    left
    simp only [LocalTime.dayNumber, midnight, ticks_per_day_eq] at *
    omega

/-- Midnight of a date is in its month, or in the month before if it starts the month and the clock
skips it. -/
theorem month_index_at_local_midnight (regular : z.Regular) {d : Date} (proper : d.Proper)
    (fold : Bool) : (atLocal z (midnight d) fold).date.monthIndex = d.monthIndex ∨
      (atLocal z (midnight d) fold).date.monthIndex = d.monthIndex - 1 ∧ d.day = 1 ∧
        z.Skips (midnight d) := by
  rcases day_number_at_local_midnight regular d fold with same | ⟨before, skipped, -⟩
  · left
    rw [Moment.date, date_eq proper same]
  · rw [Moment.date, LocalTime.date, before, proper.month_index_yesterday]
    by_cases first : d.day = 1
    · rw [if_pos first]
      exact .inr ⟨rfl, first, skipped⟩
    · rw [if_neg first]
      exact .inl rfl

/-- Midnight of today is in the month of the reference, or in the month before if today starts the
month and the clock skips its midnight. -/
theorem month_index_start_of_day (regular : ref.zone.Regular) :
    ref.startOfDay.date.monthIndex = ref.date.monthIndex ∨
      ref.startOfDay.date.monthIndex = ref.date.monthIndex - 1 ∧ ref.date.day = 1 ∧
        ref.zone.Skips (midnight (Date.ofMonthIndex ref.date.monthIndex 1)) := by
  rw [start_of_day_eq]
  rcases month_index_at_local_midnight regular ref.proper ref.fold with
    same | ⟨before, first, skipped⟩
  · exact .inl same
  · have opening := ref.proper.of_month_index_month_index
    rw [first] at opening
    exact .inr ⟨before, first, opening.symm ▸ skipped⟩

/-- What is asked where the clock skips the midnight that starts the month of a date: that of the
month before is in the calendar and is not skipped too, and a year that starts so has the calendar
of the year 28 years later. -/
structure OpensMonth (z : Zone) (d : Date) : Prop where
  later : z.Skips (midnight (Date.ofMonthIndex d.monthIndex 1)) → 1 < d.year
  apart : z.Skips (midnight (Date.ofMonthIndex d.monthIndex 1)) →
    ¬ z.Skips (midnight (Date.ofMonthIndex (d.monthIndex - 1) 1))
  comesBack : z.Skips (midnight (Date.ofMonthIndex d.monthIndex 1)) → d.month = 1 →
    Date.isLeap d.year = Date.isLeap (d.year + 28) ∧
      (Date.daysBeforeYear (d.year + 28) - Date.daysBeforeYear d.year) % 7 = 0

/-- It is enough that the clock shows the midnight that starts the month. -/
theorem opens_month_of_not_skips {d : Date}
    (shown : ¬ z.Skips (midnight (Date.ofMonthIndex d.monthIndex 1))) : OpensMonth z d :=
  ⟨fun skipped => absurd skipped shown, fun skipped => absurd skipped shown,
    fun skipped => absurd skipped shown⟩

def monthStart (m : Moment) : Moment :=
  m.startOfDay.withReading (midnight ⟨m.startOfDay.date.year, m.startOfDay.date.month, 1⟩)

theorem month_start_eq (m : Moment) : m.monthStart =
    atLocal m.zone (midnight (Date.ofMonthIndex m.startOfDay.date.monthIndex 1))
      m.startOfDay.fold := by
  have months := m.startOfDay.proper.month
  have opening : Date.ofMonthIndex m.startOfDay.date.monthIndex 1 =
      ⟨m.startOfDay.date.year, m.startOfDay.date.month, 1⟩ := by
    simp only [Date.ofMonthIndex, Date.monthIndex, Date.mk.injEq, and_true]
    omega
  have zone : m.startOfDay.zone = m.zone := start_of_day_is_in rfl
  rw [monthStart, withReading, opening, zone]

theorem zone_month_start (m : Moment) : m.monthStart.zone = m.zone :=
  with_reading_is_in (start_of_day_is_in rfl) _

theorem displays_month_start (regular : ref.zone.Regular) :
    ref.zone.Displays ref.monthStart.reading := by
  rw [month_start_eq]
  exact displays_at_local regular _ _

/-- The start of the month of a moment is in its month, or in the month before if the clock skips
the midnight that starts its month. -/
theorem month_index_month_start (regular : ref.zone.Regular)
    (opens : OpensMonth ref.zone ref.date) :
    ref.monthStart.date.monthIndex = ref.date.monthIndex ∨
      ref.monthStart.date.monthIndex = ref.date.monthIndex - 1 ∧
        ref.zone.Skips (midnight (Date.ofMonthIndex ref.date.monthIndex 1)) := by
  have today := month_index_start_of_day regular
  have opening := month_index_at_local_midnight regular
    (Date.proper_of_month_index_one ref.startOfDay.date.monthIndex) ref.startOfDay.fold
  rw [← month_start_eq, Date.month_index_of_month_index] at opening
  rcases today with same | ⟨before, -, skipped⟩
  · rw [same] at opening
    rcases opening with here | ⟨there, -, skipped⟩
    · exact .inl here
    · exact .inr ⟨there, skipped⟩
  · rw [before] at opening
    rcases opening with here | ⟨-, -, other⟩
    · exact .inr ⟨here, skipped⟩
    · exact absurd other (opens.apart skipped)

theorem month_index_month_start_bounds (regular : ref.zone.Regular)
    (opens : OpensMonth ref.zone ref.date) (years : 1 ≤ ref.date.year ∧ ref.date.year < 9970) :
    12 ≤ ref.monthStart.date.monthIndex ∧ ref.monthStart.date.monthIndex < 9970 * 12 := by
  have months := ref.proper.month
  rcases month_index_month_start regular opens with same | ⟨before, skipped⟩
  · rw [same]
    simp only [Date.monthIndex]
    omega
  · have later := opens.later skipped
    simp only [Date.monthIndex] at *
    omega

theorem instant_month_start (regular : ref.zone.Regular) :
    ref.monthStart.date.dayNumber = ref.monthStart.reading.ticks / ticksPerDay ∧
      ref.monthStart.reading.ticks - ticksPerDay < ref.monthStart.instant ∧
      ref.monthStart.instant < ref.monthStart.reading.ticks + ticksPerDay := by
  have zone : ref.monthStart.zone.Regular := (zone_month_start ref).symm ▸ regular
  exact ⟨Date.day_number_of_day_number _, instant_near zone⟩

/-- The start of a month is within the calendar, by UTC too if it is not before the calendar. -/
theorem representable_month_start (regular : ref.zone.Regular)
    (opens : OpensMonth ref.zone ref.date) (years : 1 ≤ ref.date.year ∧ ref.date.year < 9970)
    (within : 0 ≤ ref.monthStart.instant) :
    ref.monthStart.reading.isRepresentable = true ∧
      (LocalTime.mk ref.monthStart.instant).isRepresentable = true := by
  have bounds := month_index_month_start_bounds regular opens years
  have proper := ref.monthStart.proper
  have first : Date.Proper ⟨1, 1, 1⟩ := ⟨by simp, by simp, by decide⟩
  have last : Date.Proper ⟨9999, 12, 1⟩ := ⟨by simp, by simp, by decide⟩
  have low := (proper.day_number_lt_iff first).not.mpr (by
    have months := proper.month
    have days := proper.day
    simp only [Date.monthIndex] at bounds ⊢
    omega)
  have high := proper.day_number_lt_of_month_index last (by
    simp only [Date.monthIndex] at bounds ⊢
    omega)
  obtain ⟨counted, notEarly, notLate⟩ := instant_month_start regular
  rw [counted, show Date.dayNumber ⟨1, 1, 1⟩ = 0 by decide] at low
  rw [counted, show Date.dayNumber ⟨9999, 12, 1⟩ = 3652028 by decide] at high
  rw [is_representable_iff, is_representable_iff]
  simp only [ticks_per_day_eq] at *
  omega

/-- Only the first month of the calendar can start before the calendar by UTC. -/
theorem opening_of_instant_neg (regular : ref.zone.Regular)
    (opens : OpensMonth ref.zone ref.date) (years : 1 ≤ ref.date.year ∧ ref.date.year < 9970)
    (early : ref.monthStart.instant < 0) :
    ref.date.year = 1 ∧ ref.date.month = 1 := by
  have months := ref.proper.month
  have first : Date.Proper ⟨1, 1, 1⟩ := ⟨by simp, by simp, by decide⟩
  have bounds := month_index_month_start_bounds regular opens years
  obtain ⟨counted, notEarly, -⟩ := instant_month_start regular
  have opening : ref.monthStart.date.monthIndex ≤ 12 := by
    by_contra later
    have := first.day_number_lt_of_month_index ref.monthStart.proper (not_le.mp later)
    rw [counted, show Date.dayNumber ⟨1, 1, 1⟩ = 0 by decide] at this
    simp only [ticks_per_day_eq] at *
    omega
  rcases month_index_month_start regular opens with same | ⟨before, skipped⟩
  · simp only [Date.monthIndex] at *
    omega
  · have later := opens.later skipped
    simp only [Date.monthIndex] at *
    omega

/-- Months are counted on the dates, whatever the clock does. -/
theorem add_month_month_index (regular : ref.zone.Regular) (forward : ref.zone.ForwardEarly)
    (displayed : ref.zone.Displays ref.reading) (months : Int)
    (still : months = 0 → ref.reading.isRepresentable = true ∧
      (LocalTime.mk ref.instant).isRepresentable = true)
    (low : 12 ≤ ref.date.monthIndex + months) (high : ref.date.monthIndex + months < 120000) :
    ∃ r, ref.add .month months = .ok r ∧ r.date.monthIndex = ref.date.monthIndex + months := by
  rw [add]
  split
  · rename_i none
    obtain ⟨reading, instant⟩ := still none
    rw [add_elapsed_none_eq regular displayed, if_pos ⟨instant, reading⟩]
    refine ⟨_, rfl, ?_⟩
    rw [none, Int.add_zero, Moment.date, read_at_instant regular displayed, Moment.date]
  · have index := Date.month_index_add_months ref.date 0 months
    have proper := ref.proper.add_months 0 months
    have valid : (ref.date.addMonths 0 months).isValid = true := by
      rw [Date.is_valid_iff]
      refine ⟨?_, proper⟩
      have months := proper.month
      rw [Date.monthIndex] at index
      omega
    refine ⟨_, by simp only [addMonths, valid, if_true]; rfl, ?_⟩
    rw [Moment.date, date_eq proper, index]
    · omega
    · rw [day_number_at_local_true regular forward]
      simp only [LocalTime.dayNumber, ticks_per_day_eq]
      omega

end Reckon.Moment

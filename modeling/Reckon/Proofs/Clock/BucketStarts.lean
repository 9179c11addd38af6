import Reckon.Proofs.Calendar.Buckets
import Reckon.Proofs.Clock.Midnights
import Reckon.Proofs.Clock.SteadyDays
import Reckon.Proofs.Clock.Weeks

/-!
# From bucket to bucket

On a clock that shows every midnight, truncation to a day or a longer grain comes to the midnight
that starts the bucket, and a count of grains from there comes to the midnight that starts the
bucket so many later, as far as the calendar goes.
-/

set_option autoImplicit false

namespace Reckon

open LocalTime Zone

variable {grain : Grain} {weekStart : Int} {d today : Date}

/-- The clock is never put forward over a midnight. -/
def Zone.ShowsMidnights (z : Zone) : Prop :=
  ∀ d : Date, ¬ z.Skips (midnight d)

theorem Zone.Regular.displays_midnight {z : Zone} (regular : z.Regular) (shown : z.ShowsMidnights)
    (d : Date) : z.Displays (midnight d) :=
  (regular.displays_iff _).mpr (shown d)

theorem Zone.paris_shows_midnights : paris.ShowsMidnights := by
  have alternates := alternates_of_summer (z := paris) rfl rfl
    (yearly_of_months _ (by decide) (by decide))
  exact not_skips_midnight_of_forward paris_regular (alternates.forward_first (by decide))
      (by decide)

namespace LocalTime

theorem midnight_of_day_number (day : Int) : midnight (Date.ofDayNumber day) =
    ⟨day * ticksPerDay⟩ := by
  rw [midnight, Date.day_number_of_day_number]

/-- The bucket of a reading starts at the midnight that starts the bucket of its date. -/
theorem bucket_start_eq (long : Grain.day.size ≤ grain.size) (weekStart : Int) (t : LocalTime) :
    bucketStart grain weekStart t = midnight (Date.bucketFrom grain weekStart t.date 0) := by
  cases grain with
  | second | minute | hour => simp [Grain.size] at long
  | day =>
      rw [Date.bucketFrom, midnight_of_day_number, day_number_date, bucketStart]
      simp only [floorTo, dayNumber, ticks_per_day_eq, LocalTime.mk.injEq]
      omega
  | week =>
      rw [Date.bucketFrom, midnight_of_day_number, day_number_date, bucketStart, Int.mul_zero,
        Int.add_zero]
  | month =>
      have months := (proper_date t).month
      have first : Date.ofMonthIndex (t.date.monthIndex + 0) 1 =
          ⟨t.date.year, t.date.month, 1⟩ := by
        simp only [Date.ofMonthIndex, Date.monthIndex, Date.mk.injEq, and_true]
        omega
      rw [Date.bucketFrom, first, bucketStart]
  | year =>
      have january : Date.ofMonthIndex (12 * (t.date.year + 0)) 1 = ⟨t.date.year, 1, 1⟩ := by
        simp only [Date.ofMonthIndex, Date.mk.injEq, and_true]
        omega
      rw [Date.bucketFrom, january, bucketStart]

/-- The midnight of a date that starts a bucket starts its own. -/
theorem bucket_start_midnight (long : Grain.day.size ≤ grain.size) (proper : d.Proper)
    (starts : d.StartsBucket grain weekStart) :
    bucketStart grain weekStart (midnight d) = midnight d := by
  rw [bucket_start_eq long, date_midnight proper,
    (Date.tiles_bucket_from long weekStart proper).eq_of_starts proper starts]

end LocalTime

namespace Moment

variable {m ref : Moment}

theorem instant_add_none (regular : m.zone.Regular) {r : Moment} (added : m.add grain 0 = .ok r) :
    r.instant = m.instant := by
  rw [add_none] at added
  rw [eq_read_at_of_add_elapsed added, instant_read_at regular]

/-- Truncation to a week comes to its start, which is not after the moment by UTC either, unless
that start is outside of the calendar. -/
theorem start_of_week_reaches {b : LocalTime} (regular : ref.zone.Regular)
    (midnight : ref.zone.Displays (ref.reading.floorTo ticksPerDay))
    (real : ref.zone.Displays ref.reading) (begins : Begins .week weekStart ref.reading b)
    (opened : ref.zone.Displays b) :
    (∃ s, ref.startOf .week weekStart = .ok s ∧ s.zone = ref.zone ∧ s.reading = b ∧
        s.instant ≤ ref.instant) ∨
      ref.startOf .week weekStart = .error .outOfRange ∧ ¬ Reaches ref.zone b := by
  have start := week_of_begins begins
  have floor := ticks_floor_to ticksPerDay ref.reading
  have counted : b.ticks = (ref.reading.floorTo ticksPerDay).ticks +
      -((ref.reading.dayNumber - weekStart) % 7) * ticksPerDay := by
    simp only [LocalTime.dayNumber, ticks_per_day_eq] at *
    omega
  rw [start_of_week_eq regular midnight]
  rcases add_day_reaches (m := ⟨ref.zone, ref.reading.floorTo ticksPerDay, ref.fold⟩) regular
      midnight counted opened with ⟨s, added, zone, rfl⟩ | ⟨failed, outside⟩
  · refine .inl ⟨s, added, zone, rfl, ?_⟩
    by_cases today : -((ref.reading.dayNumber - weekStart) % 7) = 0
    · -- the fold of the moment is kept
      have same : s.reading = ref.reading.floorTo ticksPerDay := by
        rw [today, Int.zero_mul, Int.add_zero] at counted
        exact congrArg LocalTime.mk counted
      have least := begins.least ref.reading (same_bucket_refl .week weekStart ref.reading)
      rw [today] at added
      rw [instant_add_none (m := ⟨ref.zone, ref.reading.floorTo ticksPerDay, ref.fold⟩)
          regular added]
      rw [same] at least
      exact regular.instant_under_le midnight real least ref.fold
    · have apart : s.reading.ticks + 43200 * ticksPerSecond ≤ ref.reading.ticks := by
        simp only [LocalTime.dayNumber, ticks_per_day_eq, ticksPerSecond] at *
        omega
      rw [instant, Moment.offset, zone]
      exact regular.instant_under_le_of_apart apart s.fold ref.fold
  · refine .inr ⟨failed, fun reaches => ?_⟩
    rcases outside with past | ⟨-, past⟩
    · exact Bool.false_ne_true (past.symm.trans reaches.1)
    · exact past reaches

/-- Truncation comes to the start of the bucket, which is not after the moment by UTC either, unless
that start is outside of the calendar. -/
theorem start_of_reaches (regular : ref.zone.Regular) (shown : ref.zone.ShowsMidnights)
    (real : ref.zone.Displays ref.reading) (long : Grain.day.size ≤ grain.size) (weekStart : Int) :
    (∃ s, ref.startOf grain weekStart = .ok s ∧ s.zone = ref.zone ∧
        s.reading = midnight (Date.bucketFrom grain weekStart ref.date 0) ∧
        s.instant ≤ ref.instant) ∨
      ref.startOf grain weekStart = .error .outOfRange ∧
        ¬ Reaches ref.zone (midnight (Date.bucketFrom grain weekStart ref.date 0)) := by
  have begins := begins_bucket_start grain weekStart ref.reading
  rw [bucket_start_eq long] at begins
  have opened := regular.displays_midnight shown (Date.bucketFrom grain weekStart ref.date 0)
  by_cases week : grain = .week
  · subst week
    have today : ref.reading.floorTo ticksPerDay = midnight ref.date := by
      apply congrArg LocalTime.mk
      rw [Moment.date, day_number_date]
      simp only [LocalTime.dayNumber, ticks_per_day_eq]
      omega
    exact start_of_week_reaches regular (today ▸ regular.displays_midnight shown ref.date)
        real begins
      opened
  · have least := begins.least ref.reading (same_bucket_refl grain weekStart ref.reading)
    rw [start_of_of_displays regular begins opened week]
    exact .inl ⟨_, rfl, rfl, rfl, regular.instant_under_le opened real least ref.fold⟩

theorem add_week (m : Moment) (weeks : Int) : m.add .week weeks = m.add .day (7 * weeks) := by
  by_cases none : weeks = 0
  · rw [none, Int.mul_zero, add_none, add_none]
  · have some : 7 * weeks ≠ 0 := by omega
    rw [add, add, if_neg none, if_neg some]

theorem add_months_eq (regular : m.zone.Regular) (shown : m.zone.ShowsMidnights) {index : Int}
    (start : m.reading = midnight (Date.ofMonthIndex index 1)) (years months : Int) :
    m.addMonths years months =
      if (Date.ofMonthIndex (index + 12 * years + months) 1).isValid = true then
        .ok ⟨m.zone, midnight (Date.ofMonthIndex (index + 12 * years + months) 1), true⟩
      else .error .outOfRange := by
  have date : m.date = Date.ofMonthIndex index 1 := by
    rw [Moment.date, start, date_midnight (Date.proper_of_month_index_one index)]
  have opening : m.reading.ticks % ticksPerDay = 0 := by
    rw [start]
    exact Int.mul_emod_left _ _
  have target := at_local_of_displays regular (regular.displays_midnight shown
    (Date.ofMonthIndex (index + 12 * years + months) 1)) true
  rw [midnight] at target
  rw [addMonths, date, Date.add_months_first]
  simp only [opening, Int.add_zero, target]
  rfl

/-- A count of grains from the start of a bucket comes to the start of the bucket so many later, as
far as the calendar goes by the clock. -/
theorem add_bucket (regular : m.zone.Regular) (shown : m.zone.ShowsMidnights)
    (long : Grain.day.size ≤ grain.size)
    (start : m.reading = midnight (Date.bucketFrom grain weekStart today 0))
    {n : Int} (some : n ≠ 0) :
    m.add grain n =
      if (Date.bucketFrom grain weekStart today n).isValid = true then
        .ok ⟨m.zone, midnight (Date.bucketFrom grain weekStart today n), true⟩
      else .error .outOfRange := by
  have opened := regular.displays_midnight shown (Date.bucketFrom grain weekStart today n)
  cases grain with
  | second | minute | hour => simp [Grain.size] at long
  | day =>
      rw [Date.bucketFrom] at opened
      rw [Date.bucketFrom, midnight_of_day_number] at start
      rw [Date.bucketFrom, ← is_representable_midnight (Date.of_day_number_proper _)]
      refine add_day_eq regular some ?_ opened
      rw [start, midnight_of_day_number]
      simp only [ticks_per_day_eq]
      omega
  | week =>
      rw [Date.bucketFrom] at opened
      rw [Date.bucketFrom, midnight_of_day_number] at start
      rw [Date.bucketFrom, ← is_representable_midnight (Date.of_day_number_proper _), add_week]
      refine add_day_eq regular (by omega) ?_ opened
      rw [start, midnight_of_day_number]
      simp only [ticks_per_day_eq]
      omega
  | month =>
      have months := add_months_eq regular shown start 0 n
      have index : today.monthIndex + 0 + 12 * 0 + n = today.monthIndex + n := by omega
      rw [index] at months
      rw [add, if_neg some]
      exact months
  | year =>
      have years := add_months_eq regular shown start n 0
      have index : 12 * (today.year + 0) + 12 * n + 0 = 12 * (today.year + n) := by omega
      rw [index] at years
      rw [add, if_neg some]
      exact years

end Moment

end Reckon

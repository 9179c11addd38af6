import Reckon.Calendar.Grain
import Reckon.Proofs.Calendar.DayNumbers

/-!
# Buckets of the calendar

Days, weeks, months and years divide the calendar into buckets, each from one date on up to the date
that starts the next. The buckets are numbered from the one that holds a given date.
-/

set_option autoImplicit false

namespace Reckon.Date

variable {grain : Grain} {weekStart : Int} {d : Date}

/-- A date that starts a bucket: any day, the day on which weeks begin, the first of a month, or New
Year. -/
def StartsBucket (grain : Grain) (weekStart : Int) (d : Date) : Prop :=
  match grain with
  | .second | .minute | .hour | .day => True
  | .week => (d.weekday - weekStart) % 7 = 0
  | .month => d.day = 1
  | .year => d.month = 1 ∧ d.day = 1

/-- Dates, by whole numbers, that start one bucket after the other, where the one with number 0
holds today. -/
structure Tiles (grain : Grain) (weekStart : Int) (today : Date) (bucket : Int → Date) : Prop where
  proper : ∀ n, (bucket n).Proper
  starts : ∀ n, (bucket n).StartsBucket grain weekStart
  holds : (bucket 0).dayNumber ≤ today.dayNumber ∧ today.dayNumber < (bucket 1).dayNumber
  increases : ∀ n, (bucket n).dayNumber < (bucket (n + 1)).dayNumber
  /-- A bucket that starts after another one does not start before the next one. -/
  next : ∀ n (d : Date), d.Proper → d.StartsBucket grain weekStart →
    (bucket n).dayNumber < d.dayNumber → (bucket (n + 1)).dayNumber ≤ d.dayNumber

/-- The date that starts the bucket so many buckets after that of today. -/
def bucketFrom (grain : Grain) (weekStart : Int) (today : Date) (n : Int) : Date :=
  match grain with
  | .second | .minute | .hour | .day => ofDayNumber (today.dayNumber + n)
  | .week => ofDayNumber (today.dayNumber - (today.dayNumber - weekStart) % 7 + 7 * n)
  | .month => ofMonthIndex (today.monthIndex + n) 1
  | .year => ofMonthIndex (12 * (today.year + n)) 1

theorem Proper.first_le_iff (proper : d.Proper) (index : Int) :
    (ofMonthIndex index 1).dayNumber ≤ d.dayNumber ↔ index ≤ d.monthIndex := by
  have first := proper_of_month_index_one index
  have counted := month_index_of_month_index index 1
  constructor
  · intro le
    by_contra later
    have := proper.day_number_lt_of_month_index first (by omega)
    omega
  · intro le
    rw [← not_lt, proper.day_number_lt_iff first]
    have months := proper.month
    have days := proper.day
    simp only [ofMonthIndex, monthIndex] at *
    omega

theorem first_lt_iff (index other : Int) :
    (ofMonthIndex index 1).dayNumber < (ofMonthIndex other 1).dayNumber ↔ index < other := by
  rw [← not_le, (proper_of_month_index_one index).first_le_iff, month_index_of_month_index, not_le]

theorem Proper.lt_of_first_lt (proper : d.Proper) (first : d.day = 1) {index : Int}
    (lt : (ofMonthIndex index 1).dayNumber < d.dayNumber) : index < d.monthIndex := by
  rw [← proper.of_month_index_month_index, first, first_lt_iff] at lt
  exact lt

theorem tiles_day (weekStart : Int) (today : Date) :
    Tiles .day weekStart today (bucketFrom .day weekStart today) := by
  change Tiles .day weekStart today fun n => ofDayNumber (today.dayNumber + n)
  refine ⟨fun n => of_day_number_proper _, fun n => trivial, ?_, fun n => ?_,
      fun n d _ _ after => ?_⟩
  · simp only [day_number_of_day_number]
    omega
  · simp only [day_number_of_day_number]
    omega
  · simp only [day_number_of_day_number] at *
    omega

theorem tiles_week (weekStart : Int) (today : Date) :
    Tiles .week weekStart today (bucketFrom .week weekStart today) := by
  change Tiles .week weekStart today fun n =>
    ofDayNumber (today.dayNumber - (today.dayNumber - weekStart) % 7 + 7 * n)
  refine ⟨fun n => of_day_number_proper _, fun n => ?_, ?_, fun n => ?_,
      fun n d _ starts after => ?_⟩
  · simp only [StartsBucket, weekday, weekdayOf, day_number_of_day_number]
    omega
  · simp only [day_number_of_day_number]
    omega
  · simp only [day_number_of_day_number]
    omega
  · simp only [StartsBucket, weekday, weekdayOf, day_number_of_day_number] at *
    omega

theorem tiles_month (weekStart : Int) {today : Date} (proper : today.Proper) :
    Tiles .month weekStart today (bucketFrom .month weekStart today) := by
  change Tiles .month weekStart today fun n => ofMonthIndex (today.monthIndex + n) 1
  refine ⟨fun n => proper_of_month_index_one _, fun n => rfl, ?_, fun n => ?_,
    fun n d there first after => ?_⟩
  · rw [proper.first_le_iff, ← not_le, proper.first_le_iff]
    omega
  · rw [first_lt_iff]
    omega
  · have later := there.lt_of_first_lt first after
    rw [there.first_le_iff]
    omega

theorem tiles_year (weekStart : Int) {today : Date} (proper : today.Proper) :
    Tiles .year weekStart today (bucketFrom .year weekStart today) := by
  have months := proper.month
  change Tiles .year weekStart today fun n => ofMonthIndex (12 * (today.year + n)) 1
  refine ⟨fun n => proper_of_month_index_one _, fun n => ⟨?_, rfl⟩, ?_, fun n => ?_,
    fun n d there first after => ?_⟩
  · simp only [ofMonthIndex]
    omega
  · rw [proper.first_le_iff, ← not_le, proper.first_le_iff, monthIndex]
    omega
  · rw [first_lt_iff]
    omega
  · obtain ⟨january, day⟩ := first
    have later := there.lt_of_first_lt day after
    rw [there.first_le_iff]
    simp only [monthIndex, january] at *
    omega

/-- The buckets of days and longer grains tile the calendar. -/
theorem tiles_bucket_from (long : Grain.day.size ≤ grain.size) (weekStart : Int) {today : Date}
    (proper : today.Proper) : Tiles grain weekStart today (bucketFrom grain weekStart today) := by
  cases grain with
  | second | minute | hour => simp [Grain.size] at long
  | day => exact tiles_day weekStart today
  | week => exact tiles_week weekStart today
  | month => exact tiles_month weekStart proper
  | year => exact tiles_year weekStart proper

theorem Tiles.eq_of_starts {bucket : Int → Date} (tiles : Tiles grain weekStart d bucket)
    (proper : d.Proper) (starts : d.StartsBucket grain weekStart) : bucket 0 = d := by
  obtain ⟨low, high⟩ := tiles.holds
  refine (tiles.proper 0).eq_of_day_number proper (le_antisymm low ?_)
  by_contra after
  have := tiles.next 0 d proper starts (not_le.mp after)
  rw [Int.zero_add] at this
  omega

theorem add_months_first (index years months : Int) :
    (ofMonthIndex index 1).addMonths years months =
      ofMonthIndex (index + 12 * years + months) 1 := by
  have counted : (index / 12 + years) * 12 + (index % 12 + 1 - 1) + months =
      index + 12 * years + months := by omega
  have length := (month_length_bounds ((index + 12 * years + months) / 12)
    ((index + 12 * years + months) % 12 + 1)).1
  simp only [addMonths, ofMonthIndex, counted, Date.mk.injEq, true_and]
  omega

end Reckon.Date

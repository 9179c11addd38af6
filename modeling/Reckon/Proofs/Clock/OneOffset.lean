import Reckon.Proofs.Clock.BucketStarts
import Reckon.Proofs.Clock.OnceShown

/-!
# Clocks of one offset

On a clock that is never changed every reading is shown once and no reading is moved: elapsed time
is counted by the clock, and truncation leaves what starts a bucket as it is.
-/

set_option autoImplicit false

namespace Reckon

open LocalTime Sequencing

/-- The clock is never changed. -/
structure Zone.HasOneOffset (z : Zone) : Prop where
  alike : ∀ instant, z.offsetAt instant = z.offsetAt 0
  short : -86400 < z.offsetAt 0 ∧ z.offsetAt 0 < 86400

namespace Zone

variable {z : Zone}

theorem has_one_offset_fixed (name : String) {offset : Int}
    (short : -86400 < offset ∧ offset < 86400) :
    (fixed name offset).HasOneOffset :=
  ⟨fun _ => rfl, short⟩

namespace HasOneOffset

theorem offset_of_eq (one : z.HasOneOffset) (t : LocalTime) (fold : Bool) :
    z.offsetOf t fold = z.offsetAt 0 := by
  obtain ⟨instant, same⟩ := exists_offset_at z t fold
  rw [same, one.alike]

theorem regular (one : z.HasOneOffset) : z.Regular := by
  refine ⟨fun i => ?_, fun i j => ?_, fun i => ⟨i, fun j _ _ => ?_⟩⟩
  · rw [one.alike]
    exact one.short
  · rw [one.alike i, one.alike j]
    omega
  · rw [one.alike j, one.alike i, one.alike (i + 9 * ticksPerDay), ite_self]

theorem not_skips (one : z.HasOneOffset) (t : LocalTime) : ¬ z.Skips t := by
  rw [Skips, one.offset_of_eq, one.offset_of_eq]
  exact lt_irrefl _

theorem displays (one : z.HasOneOffset) (t : LocalTime) : z.Displays t :=
  (one.regular.displays_iff t).mpr (one.not_skips t)

theorem steady (one : z.HasOneOffset) (day : Int) : z.Steady day := fun t _ =>
  one.regular.shows_once_of_displays (one.displays t)
    ((one.offset_of_eq t false).trans (one.offset_of_eq t true).symm)

theorem shows_midnights (one : z.HasOneOffset) : z.ShowsMidnights :=
    fun d => one.not_skips (midnight d)

theorem forward_early (one : z.HasOneOffset) : z.ForwardEarly := fun t skipped =>
  absurd skipped (one.not_skips t)

theorem at_local_eq (one : z.HasOneOffset) (t : LocalTime) (fold : Bool) :
    Moment.atLocal z t fold = ⟨z, t, fold⟩ :=
  Moment.at_local_of_displays one.regular (one.displays t) fold

end HasOneOffset

end Zone

namespace Moment

variable {z : Zone} {m : Moment} {grain : Grain} {weekStart : Int}

theorem instant_of_one (one : m.zone.HasOneOffset) :
    m.instant = m.reading.ticks - m.zone.offsetAt 0 * ticksPerSecond := by
  rw [instant, Moment.offset, one.offset_of_eq, Zone.instantUnder]

theorem add_elapsed_reading (one : m.zone.HasOneOffset) (ticks : Int) :
    Yields (fun r => r.reading.ticks = m.reading.ticks + ticks) (m.addElapsed ticks) := by
  rw [add_elapsed_eq]
  split
  · apply yields_ok
    rw [readAt, one.alike, instant_of_one one]
    simp only
    omega
  · exact yields_error _ _

theorem is_representable_midnight_add {d : Date} (valid : d.isValid = true) {time : Int}
    (low : 0 ≤ time) (high : time < ticksPerDay) :
    (LocalTime.mk (d.dayNumber * ticksPerDay + time)).isRepresentable = true := by
  have within := is_representable_midnight ((Date.is_valid_iff d).mp valid).2
  rw [valid, is_representable_iff, midnight] at within
  rw [is_representable_iff]
  simp only [ticks_per_day_eq] at *
  omega

theorem add_is_representable (one : m.zone.HasOneOffset) (grain : Grain) (n : Int) :
    Yields (fun r => r.reading.isRepresentable = true) (m.add grain n) := by
  have elapsed : ∀ ticks, Yields (fun r => r.reading.isRepresentable = true)
      (m.addElapsed ticks) := by
    intro ticks
    rw [add_elapsed_eq]
    split
    · rename_i inside
      exact yields_ok inside.2.2
    · exact yields_error _ _
  have days : ∀ count, Yields (fun r => r.reading.isRepresentable = true) (m.addDays count) := by
    intro count
    unfold addDays
    simp only [one.at_local_eq]
    split
    · rename_i inside
      exact yields_ok inside
    · exact yields_error _ _
  have months : ∀ years count, Yields (fun r => r.reading.isRepresentable = true)
      (m.addMonths years count) := by
    intro years count
    unfold addMonths
    simp only [one.at_local_eq]
    split
    · rename_i valid
      refine yields_ok (is_representable_midnight_add valid ?_ ?_)
      · exact Int.emod_nonneg _ (by decide)
      · exact Int.emod_lt_of_pos _ (by decide)
    · exact yields_error _ _
  unfold add
  split
  · exact elapsed 0
  · cases grain with
    | second | minute | hour => exact elapsed _
    | day | week => exact days _
    | month | year => exact months _ _

/-- Truncation leaves the start of a bucket other than a week as it is. -/
theorem start_of_same (one : m.zone.HasOneOffset)
    (start : bucketStart grain weekStart m.reading = m.reading) (short : grain ≠ .week) :
    m.startOf grain weekStart = .ok m := by
  have begins := begins_bucket_start grain weekStart m.reading
  rw [start] at begins
  exact start_of_of_displays one.regular begins (one.displays _) short

/-- The start of a week is counted to through UTC, so it has to be within the calendar there too. -/
theorem start_of_week_same (one : m.zone.HasOneOffset)
    (start : bucketStart .week weekStart m.reading = m.reading) :
    m.startOf .week weekStart =
      if m.zone.InCalendar m.instant then .ok (readAt m.zone m.instant)
      else .error .outOfRange := by
  have ticks := congrArg LocalTime.ticks start
  have floor := ticks_floor_to ticksPerDay m.reading
  have back : (m.reading.dayNumber - weekStart) % 7 = 0 := by
    simp only [bucketStart, LocalTime.dayNumber, ticks_per_day_eq] at *
    omega
  have opening : (m.reading.floorTo ticksPerDay).ticks = m.reading.ticks := by
    simp only [bucketStart, LocalTime.dayNumber, ticks_per_day_eq] at *
    omega
  have midnight : m.reading.floorTo ticksPerDay = m.reading := congrArg LocalTime.mk opening
  have inside : m.zone.InCalendar m.instant ↔
      (LocalTime.mk m.instant).isRepresentable = true ∧ m.reading.isRepresentable = true := by
    rw [Zone.InCalendar, read_at_instant one.regular (one.displays _)]
  rw [start_of_week_eq one.regular (one.displays _), back, midnight, Int.neg_zero, add_none,
    add_elapsed_none_eq one.regular (one.displays _)]
  exact if_congr inside.symm rfl rfl

end Moment

end Reckon

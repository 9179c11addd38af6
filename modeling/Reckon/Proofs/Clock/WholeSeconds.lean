import Reckon.Proofs.Clock.ZoneRules

/-!
# Cutting off the fraction of a second

Where a clock is changed at whole seconds, the fraction of a second is no matter to it. So
truncation to the second cuts the fraction off the instant, on either side of a change.
-/

set_option autoImplicit false

namespace Reckon

open LocalTime

def wholeSecond (instant : Int) : Int :=
  instant - instant % ticksPerSecond

theorem whole_second_add (instant seconds : Int) :
    wholeSecond (instant + seconds * ticksPerSecond) =
      wholeSecond instant + seconds * ticksPerSecond := by
  rw [wholeSecond, wholeSecond, Int.add_mul_emod_self_right]
  omega

theorem whole_second_whole_second (instant : Int) :
    wholeSecond (wholeSecond instant) = wholeSecond instant := by
  simp only [wholeSecond, ticksPerSecond]
  omega

theorem le_whole_second_iff {second : Int} (whole : second % ticksPerSecond = 0) (instant : Int) :
    second ≤ wholeSecond instant ↔ second ≤ instant := by
  simp only [wholeSecond, ticksPerSecond] at *
  omega

theorem whole_second_lt_iff {second : Int} (whole : second % ticksPerSecond = 0) (instant : Int) :
    wholeSecond instant < second ↔ instant < second := by
  rw [← not_le, le_whole_second_iff whole, not_le]

theorem Change.instant_whole (c : Change) (year : Int) :
    c.instant year % ticksPerSecond = 0 := by
  simp only [Change.instant, ticks_per_day_eq, ticksPerSecond]
  omega

namespace Zone

variable {z : Zone}

/-- The clock is changed at whole seconds only. -/
def WholeSeconds (z : Zone) : Prop :=
  ∀ instant, z.offsetAt (wholeSecond instant) = z.offsetAt instant

theorem Season.covers_whole_second (s : Season) (year instant : Int) :
    Season.covers s year (wholeSecond instant) = Season.covers s year instant := by
  have starts := s.starts.instant_whole year
  have ends := s.ends.instant_whole year
  simp only [Season.covers]
  rw [decide_eq_decide.mpr (le_whole_second_iff starts instant),
    decide_eq_decide.mpr (whole_second_lt_iff ends instant),
    decide_eq_decide.mpr (le_whole_second_iff ends instant),
    decide_eq_decide.mpr (whole_second_lt_iff starts instant)]

theorem seasonal_offset_whole_second (z : Zone) (instant : Int) :
    z.seasonalOffset (wholeSecond instant) = z.seasonalOffset instant := by
  have day : (LocalTime.mk (wholeSecond instant + z.standard * ticksPerSecond)).date =
      (LocalTime.mk (instant + z.standard * ticksPerSecond)).date := by
    apply congrArg Date.ofDayNumber
    simp only [dayNumber, wholeSecond, ticks_per_day_eq, ticksPerSecond]
    omega
  cases season : z.season with
  | none => simp only [seasonalOffset, season]
  | some s => simp only [seasonalOffset, season, day, Season.covers_whole_second]

theorem whole_seconds_of_eras (whole : ∀ e ∈ z.eras, e.ends.ticks % ticksPerSecond = 0) :
    z.WholeSeconds := by
  intro instant
  have same : (z.eras.find? fun e => decide (wholeSecond instant < e.ends.ticks)) =
      z.eras.find? fun e => decide (instant < e.ends.ticks) := by
    apply List.find?_congr
    intro e listed
    rw [decide_eq_decide, whole_second_lt_iff (whole e listed)]
  rw [Zone.offsetAt, Zone.offsetAt, same]
  cases z.eras.find? fun e => decide (instant < e.ends.ticks) with
  | none => exact seasonal_offset_whole_second z instant
  | some e => rfl

theorem WholeSeconds.shows (whole : z.WholeSeconds) (offset : Int) (t : LocalTime) :
    z.shows offset (t.floorTo ticksPerSecond) = z.shows offset t := by
  have moved : instantUnder offset (t.floorTo ticksPerSecond) =
      wholeSecond (instantUnder offset t) := by
    simp only [instantUnder, floorTo, wholeSecond, ticksPerSecond]
    omega
  rw [Zone.shows, Zone.shows, moved, whole]

theorem WholeSeconds.offset_of (whole : z.WholeSeconds) (t : LocalTime) (fold : Bool) :
    z.offsetOf (t.floorTo ticksPerSecond) fold = z.offsetOf t fold := by
  have before : (t.floorTo ticksPerSecond).ticks - ticksPerDay =
      wholeSecond (t.ticks - ticksPerDay) := by
    simp only [floorTo, wholeSecond, ticks_per_day_eq, ticksPerSecond]
    omega
  have after : (t.floorTo ticksPerSecond).ticks + ticksPerDay =
      wholeSecond (t.ticks + ticksPerDay) := by
    simp only [floorTo, wholeSecond, ticks_per_day_eq, ticksPerSecond]
    omega
  simp only [Zone.offsetOf, before, after, whole (t.ticks - ticksPerDay),
    whole (t.ticks + ticksPerDay), whole.shows]

theorem paris_whole_seconds : paris.WholeSeconds :=
  whole_seconds_of_eras (by simp [paris])

end Zone

namespace Moment

variable {z : Zone}

/-- Truncated to the second, what the clock reads at an instant is what it reads at the instant
without the fraction. -/
theorem start_of_second_read_at (regular : z.Regular) (whole : z.WholeSeconds) (instant : Int) :
    (readAt z instant).startOf .second 0 = .ok (readAt z (wholeSecond instant)) := by
  have reading : (readAt z instant).reading.floorTo ticksPerSecond =
      (readAt z (wholeSecond instant)).reading := by
    simp only [readAt]
    rw [whole]
    simp only [floorTo, wholeSecond, ticksPerSecond, LocalTime.mk.injEq]
    omega
  have shown : z.Displays (readAt z (wholeSecond instant)).reading := ⟨_, rfl⟩
  have fold : (readAt z instant).fold = (readAt z (wholeSecond instant)).fold := by
    have same := whole.offset_of (readAt z instant).reading false
    rw [reading] at same
    change (z.offsetAt instant != z.offsetOf (readAt z instant).reading false) =
      (z.offsetAt (wholeSecond instant) !=
        z.offsetOf (readAt z (wholeSecond instant)).reading false)
    rw [whole, same]
  rw [startOf, withReading, reading, fold]
  exact congrArg Except.ok (at_local_of_displays regular shown _)

end Moment

end Reckon

import Reckon.Proofs.Calendar.DayNumbers
import Reckon.Proofs.Clock.Zones

/-!
# Days on which the clock is not changed

On a day all of whose readings the clock shows once, a moment is what its reading says: it can be
set to any time of that day, and days can be counted from it on the wall clock.
-/

set_option autoImplicit false

namespace Reckon

open Sequencing

namespace LocalTime

theorem day_number_make (date : Date) {hour minute second microsecond : Int}
    (proper : isTimeOfDay hour minute second microsecond = true) :
    (make date hour minute second microsecond).dayNumber = date.dayNumber := by
  simp only [isTimeOfDay, Bool.and_eq_true, decide_eq_true_eq] at proper
  simp only [make, dayNumber, ticksPerDay, ticksPerHour, ticksPerMinute, ticksPerSecond]
  omega

theorem day_number_floor_to (t : LocalTime) :
    (t.floorTo ticksPerDay).dayNumber = t.dayNumber := by
  simp only [floorTo, dayNumber, ticksPerDay, ticksPerHour, ticksPerMinute, ticksPerSecond]
  omega

theorem day_number_add_days (t : LocalTime) (days : Int) :
    (LocalTime.mk (t.ticks + days * ticksPerDay)).dayNumber = t.dayNumber + days := by
  simp only [dayNumber, ticksPerDay, ticksPerHour, ticksPerMinute, ticksPerSecond]
  omega

theorem day_number_date (t : LocalTime) : t.date.dayNumber = t.dayNumber :=
  Date.day_number_of_day_number t.dayNumber

end LocalTime

namespace Zone

/-- The clock shows a reading, and neither skips nor repeats it. -/
structure ShowsOnce (z : Zone) (t : LocalTime) : Prop where
  alike : z.offsetOf t false = z.offsetOf t true
  shown : z.shows (z.offsetOf t false) t = true

/-- A day on which the clock is not changed. -/
def Steady (z : Zone) (day : Int) : Prop :=
  ∀ t : LocalTime, t.dayNumber = day → z.ShowsOnce t

/-- In a zone of one offset no day has a change of the clock. -/
theorem steady_of_fixed {z : Zone} (season : z.season = none) (eras : z.eras = []) (day : Int) :
    z.Steady day := by
  have always : ∀ instant, z.offsetAt instant = z.standard := by
    intro instant
    simp [offsetAt, eras, seasonalOffset, season]
  intro t _
  constructor
  · simp [offsetOf, shows, always]
  · simp [offsetOf, shows, always]

theorem ShowsOnce.offset_eq {z : Zone} {t : LocalTime} (once : z.ShowsOnce t) (fold : Bool) :
    z.offsetOf t fold = z.offsetOf t false := by
  cases fold with
  | false => rfl
  | true => exact once.alike.symm

end Zone

namespace Moment

variable {z : Zone} {m : Moment} {t : LocalTime}

theorem at_local_of_shows_once (once : z.ShowsOnce t) (fold : Bool) :
    atLocal z t fold = ⟨z, t, fold⟩ := by
  unfold atLocal
  simp only [once.alike, Int.lt_irrefl, if_false]

/-- The clock shows the reading again at the instant it is counted to. -/
theorem read_at_of_shows_once (once : z.ShowsOnce t) (fold : Bool) :
    (readAt z (Zone.instantUnder (z.offsetOf t fold) t)).reading = t := by
  have shown := once.shown
  rw [Zone.shows, beq_iff_eq] at shown
  rw [once.offset_eq fold]
  unfold readAt
  simp only [shown]
  rw [Zone.instantUnder, Int.sub_add_cancel]

theorem add_elapsed_zero_reading (once : m.zone.ShowsOnce m.reading) :
    Yields (fun r => r.reading = m.reading) (m.addElapsed 0) := by
  unfold addElapsed
  split
  · unfold ofInstant
    simp only
    split
    · apply yields_ok
      rw [Int.add_zero]
      exact read_at_of_shows_once once m.fold
    · exact yields_error _ _
  · exact yields_error _ _

/-! The day of a moment. -/

def dayNumber (m : Moment) : Int := m.reading.dayNumber

theorem date_eq_of_day_number {a b : Moment} (same : a.dayNumber = b.dayNumber) :
    a.date = b.date := by
  unfold date LocalTime.date
  exact congrArg Date.ofDayNumber same

theorem at_local_day_number (steady : z.Steady t.dayNumber) (fold : Bool) :
    (atLocal z t fold).dayNumber = t.dayNumber := by
  rw [at_local_of_shows_once (steady t rfl)]
  rfl

theorem start_of_day_day_number (steady : m.zone.Steady m.dayNumber) :
    m.startOfDay.dayNumber = m.dayNumber := by
  have floor := LocalTime.day_number_floor_to m.reading
  unfold startOfDay withReading
  rw [at_local_day_number (by rw [floor]; exact steady), floor]
  rfl

theorem set_time_day_number (steady : m.zone.Steady m.dayNumber)
    (hour minute second microsecond : Int) :
    Yields (fun r => r.dayNumber = m.dayNumber) (m.setTime hour minute second microsecond) := by
  unfold setTime
  split
  · rename_i proper
    have day : (LocalTime.make m.date hour minute second microsecond).dayNumber = m.dayNumber := by
      rw [LocalTime.day_number_make _ proper]
      exact LocalTime.day_number_date m.reading
    apply yields_ok
    unfold withReading
    rw [at_local_day_number (by rw [day]; exact steady), day]
  · exact yields_error _ _

/-- Days are counted on the wall clock, from one steady day to another. -/
theorem add_day_day_number {days : Int} (here : m.zone.Steady m.dayNumber)
    (there : m.zone.Steady (m.dayNumber + days)) :
    Yields (fun r => r.dayNumber = m.dayNumber + days) (m.add .day days) := by
  unfold add
  split
  · rename_i none
    intro r returned
    rw [dayNumber, add_elapsed_zero_reading (here m.reading rfl) r returned, none, Int.add_zero]
    rfl
  · have day := LocalTime.day_number_add_days m.reading days
    unfold addDays
    simp only
    split
    · apply yields_ok
      rw [at_local_day_number (by rw [day]; exact there), day]
      rfl
    · exact yields_error _ _

end Moment

end Reckon

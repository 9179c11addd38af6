import Reckon.Proofs.Clock.SteadyDays
import Reckon.Proofs.Resolution.IntervalOrder

/-!
# Intervals that end at a time on a day

A time on a day is read from the start of an interval, whatever names the day. A form that is read
from the start by itself names the same day with a time on it. A form that is read from now by
itself is counted from the start with a time on it, so that "tomorrow at five" is the day after the
start.
-/

set_option autoImplicit false

namespace Reckon

open Sequencing TimeForm Value

namespace TimeForm

theorem ground_timed_ok {c : Context} {date : TimeForm} {time : ClockTime} {ref : Moment}
    {grounded : Grounded} (ran : (timed date time).ground c ref = .ok grounded) :
    ∃ day, date.ground c ref = .ok (day, .day) ∧
      day.setTime time.hour time.minute 0 0 = .ok grounded.1 := by
  rw [ground] at ran
  obtain ⟨⟨day, grain⟩, names, rest⟩ := (bind_ok_iff _ _ _).mp ran
  simp only at rest
  split at rest
  · cases rest
  · rename_i whole
    rw [ne_eq, not_not] at whole
    obtain ⟨m, sets, same⟩ := (bind_ok_iff _ _ _).mp rest
    cases same
    exact ⟨day, by rw [names, whole], sets⟩

theorem ground_relative_day {c : Context} {days : Int} {ref : Moment}
    (here : ref.zone.Steady ref.dayNumber) (there : ref.zone.Steady (ref.dayNumber + days)) :
    Yields (fun grounded => grounded.1.dayNumber = ref.dayNumber + days)
      ((relative .day days).ground c ref) := by
  have zone : ref.startOfDay.zone = ref.zone := Moment.start_of_day_is_in rfl
  have day := Moment.start_of_day_day_number here
  have counted : Yields (fun r => r.dayNumber = ref.startOfDay.dayNumber + days)
      (ref.startOfDay.add .day days) :=
    Moment.add_day_day_number (by rw [zone, day]; exact here) (by rw [zone, day]; exact there)
  rw [day] at counted
  rw [ground]
  exact yields_bind (Q := fun m => m = ref.startOfDay) (yields_ok rfl) fun m same =>
    yields_bind (same ▸ counted) fun r reached => yields_ok reached

end TimeForm

/-- The days on which two intervals from one start end, one of them at a time on the day that ends
the other. -/
structure TimedEnd (c : Context) (date : TimeForm) (first alone timed : Moment) : Prop where
  /-- A form that is read from the start names the same day in both. -/
  anchored : date.isAnchored = true → c.zone.Steady alone.dayNumber → timed.date = alone.date
  /-- A form that is read from now names a day from there alone, and one from the start with a
  time. -/
  unanchored : date.isAnchored = false → date.ground c c.now = .ok (alone, .day) ∧
    ∃ named, date.ground c first = .ok (named, .day) ∧
      (c.zone.Steady named.dayNumber → timed.date = named.date)
  /-- So days counted from now are off by those from now to the start. -/
  relative : ∀ days, date = .relative .day days →
    (∀ day ∈ [c.now.dayNumber, c.now.dayNumber + days, first.dayNumber, first.dayNumber + days],
      c.zone.Steady day) →
    timed.dayNumber - alone.dayNumber = first.dayNumber - c.now.dayNumber

theorem timed_end_of_ends {c : Context} {start date : TimeForm} {time : ClockTime}
    {first alone other timed : Grounded} (ends : Ends c start date first alone)
    (endsTimed : Ends c start (.timed date time) other timed) :
    other = first ∧ TimedEnd c date first.1 alone.1 timed.1 := by
  have starts := endsTimed.start
  rw [ends.start] at starts
  cases starts
  have inZone : first.1.zone = c.zone := ends.zones.1
  have fromStart : (TimeForm.timed date time).ground c first.1 = .ok timed := endsTimed.stop
  obtain ⟨named, names, sets⟩ := ground_timed_ok fromStart
  have namedGrounds := ground_grounds c date inZone _ names
  have namedZone : named.zone = c.zone := namedGrounds.zone
  have day : c.zone.Steady named.dayNumber → timed.1.dayNumber = named.dayNumber := fun steady =>
    Moment.set_time_day_number (by rw [namedZone]; exact steady) _ _ _ _ _ sets
  have stops := ends.stop
  refine ⟨rfl, ?_, ?_, ?_⟩
  · intro anchored steady
    rw [if_pos anchored, names] at stops
    cases stops
    exact Moment.date_eq_of_day_number (day steady)
  · intro free
    rw [if_neg (by simp [free])] at stops
    -- the grain of the form is the same from both references
    have grain := (ground_grounds c date (z := c.zone) rfl _ stops).grain
    rw [namedGrounds.grain, Option.some_inj] at grain
    refine ⟨?_, named, names, fun steady => Moment.date_eq_of_day_number (day steady)⟩
    rw [stops, show Grain.day = alone.2 from grain]
  · rintro days rfl steady
    have fromNow : (TimeForm.relative .day days).ground c c.now = .ok alone := stops
    simp only [List.forall_mem_cons] at steady
    obtain ⟨today, later, begins, closes, -⟩ := steady
    have aloneDay := ground_relative_day today later _ fromNow
    have namedDay := ground_relative_day (by rw [inZone]; exact begins)
      (by rw [inZone]; exact closes) _ names
    simp only at aloneDay namedDay
    have timedDay := day (by rw [namedDay]; exact closes)
    omega

/-- Of two intervals from one start that resolve, one to a day and one to a time on it, the start is
the same, and so is the day of the end if the day is read from the start. -/
theorem timed_end_day (c : Context) (start date : TimeForm) (time : ClockTime)
    (precision : Precision) (latent : Bool) (first alone other timed : Moment)
    (grain otherGrain : Grain)
    (reads : (between start date precision latent).resolve .datetime c =
      .ok (.interval first alone grain precision latent))
    (readsTimed : (between start (.timed date time) precision latent).resolve .datetime c =
      .ok (.interval other timed otherGrain precision latent)) :
    other = first ∧ TimedEnd c date first alone timed := by
  obtain ⟨_, _, ends, same⟩ := ends_of_resolve reads
  cases same
  obtain ⟨_, _, endsTimed, same⟩ := ends_of_resolve readsTimed
  cases same
  obtain ⟨same, end_⟩ := timed_end_of_ends ends endsTimed
  exact ⟨congrArg Prod.fst same, end_⟩

def february (day hour : Int) : Moment :=
  ⟨Zone.utc, LocalTime.make ⟨2013, 2, day⟩ hour 0 0 0, true⟩

/-- From Monday to Friday, and to five on Friday. -/
theorem friday_at_five_day :
    (between (.dayOfWeek 0 none) (.dayOfWeek 4 none) .exact false).resolve .datetime
        Context.training = .ok (.interval (february 18 0) (february 22 0) .day .exact false) ∧
    (between (.dayOfWeek 0 none) (.timed (.dayOfWeek 4 none) ⟨17, 0, false⟩) .exact false).resolve
        .datetime Context.training =
      .ok (.interval (february 18 0) (february 22 17) .hour .exact false) ∧
    Zone.utc.Steady (february 22 0).dayNumber ∧ (february 22 17).date = (february 22 0).date := by
  have reads : (between (.dayOfWeek 0 none) (.dayOfWeek 4 none) .exact false).resolve .datetime
      Context.training = .ok (.interval (february 18 0) (february 22 0) .day .exact false) :=
    ok_of_to_option (by decide +kernel)
  have readsTimed : (between (.dayOfWeek 0 none) (.timed (.dayOfWeek 4 none) ⟨17, 0, false⟩) .exact
      false).resolve .datetime Context.training =
        .ok (.interval (february 18 0) (february 22 17) .hour .exact false) :=
    ok_of_to_option (by decide +kernel)
  have steady := Zone.steady_of_fixed (z := Zone.utc) rfl rfl (february 22 0).dayNumber
  obtain ⟨-, day⟩ := timed_end_day _ _ _ _ _ _ _ _ _ _ _ _ reads readsTimed
  exact ⟨reads, readsTimed, steady, day.anchored rfl steady⟩

/-- From tomorrow to tomorrow, and to five tomorrow, which is the day after. -/
theorem tomorrow_at_five_slips :
    (between (.relative .day 1) (.relative .day 1) .exact false).resolve .datetime
        Context.training = .ok (.interval (february 13 0) (february 13 0) .day .exact false) ∧
    (between (.relative .day 1) (.timed (.relative .day 1) ⟨17, 0, false⟩) .exact false).resolve
        .datetime Context.training =
      .ok (.interval (february 13 0) (february 14 17) .hour .exact false) ∧
    (∀ day, Zone.utc.Steady day) ∧ (february 14 17).date ≠ (february 13 0).date := by
  refine ⟨ok_of_to_option (by decide +kernel), ok_of_to_option (by decide +kernel), ?_, by decide⟩
  exact Zone.steady_of_fixed rfl rfl

end Reckon

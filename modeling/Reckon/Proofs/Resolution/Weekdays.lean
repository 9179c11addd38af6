import Reckon.Proofs.Clock.OneOffset
import Reckon.Proofs.Resolution.IntervalOrder

/-!
# The nearest weekday

A day of the week resolves to midnight of the nearest such day ahead of the reference, or back from
it, on a clock that shows the midnights of these days. Today's midnight is come to through UTC,
where the first day of the calendar may start before it.
-/

set_option autoImplicit false

namespace Reckon

open Sequencing Moment Zone LocalTime

namespace TimeForm

/-- On which side of today a weekday is looked for: after today, or from today on for "this", or
before today for "last". -/
def OnSide (direction : Option Direction) (today day : Int) : Prop :=
  match direction with
  | none | some .next => today < day
  | some .this => today ≤ day
  | some .last => day < today

/-- The nearest day on that side that falls on a weekday: the earliest one ahead, or the latest one
before. -/
structure Nearest (weekday : Int) (direction : Option Direction) (today day : Int) : Prop where
  falls : Date.weekdayOf day = weekday % 7
  side : OnSide direction today day
  nearest : ∀ other, Date.weekdayOf other = weekday % 7 → OnSide direction today other →
    (day - today).natAbs ≤ (other - today).natAbs

/-- How far away that day can be. -/
def WithinWeek (direction : Option Direction) (today day : Int) : Prop :=
  match direction with
  | none | some .next => today + 1 ≤ day ∧ day ≤ today + 7
  | some .this => today ≤ day ∧ day ≤ today + 6
  | some .last => today - 7 ≤ day ∧ day ≤ today - 1

def daysTo (today weekday : Int) (direction : Option Direction) : Int :=
  if direction = some .last then -(daysBack today weekday) else daysAhead today weekday direction

theorem ground_day_of_week_eq (weekday : Int) (direction : Option Direction) (ref : Moment) :
    groundDayOfWeek weekday direction ref =
      ref.startOfDay.add .day (daysTo ref.startOfDay.weekday weekday direction) := by
  rw [groundDayOfWeek, daysTo]
  split
  · rfl
  · rfl

/-! How many days are counted. -/

theorem days_ahead_this (today weekday : Int) :
    daysAhead today weekday (some .this) = (weekday - today) % 7 := by
  simp [daysAhead]

theorem days_ahead_after (direction : Option Direction) (after : direction ≠ some .this)
    (today weekday : Int) : 1 ≤ daysAhead today weekday direction ∧
      daysAhead today weekday direction ≤ 7 ∧
      (today + daysAhead today weekday direction - weekday) % 7 = 0 := by
  simp only [daysAhead, after, ne_eq, not_false_eq_true, decide_true, Bool.and_true,
    decide_eq_true_eq]
  split_ifs <;> omega

theorem days_back_before (today weekday : Int) : 1 ≤ daysBack today weekday ∧
    daysBack today weekday ≤ 7 ∧ (today - daysBack today weekday - weekday) % 7 = 0 := by
  simp only [daysBack]
  split_ifs <;> omega

/-- The day that is counted to falls on the weekday, within a week on the side that is wanted. -/
theorem days_to_spec (today weekday : Int) (direction : Option Direction) :
    WithinWeek direction today (today + daysTo (Date.weekdayOf today) weekday direction) ∧
      (today + daysTo (Date.weekdayOf today) weekday direction - weekday) % 7 = 0 := by
  rw [Date.weekdayOf]
  cases direction with
  | none =>
      have ahead := days_ahead_after none (by simp) (today % 7) weekday
      rw [daysTo, if_neg (by simp), WithinWeek]
      omega
  | some side =>
      cases side with
      | next =>
          have ahead := days_ahead_after (some .next) (by simp) (today % 7) weekday
          rw [daysTo, if_neg (by simp), WithinWeek]
          omega
      | this =>
          rw [daysTo, if_neg (by simp), days_ahead_this, WithinWeek]
          omega
      | last =>
          have back := days_back_before (today % 7) weekday
          rw [daysTo, if_pos rfl, WithinWeek]
          omega

theorem on_side_of_within_week {direction : Option Direction} {today day : Int}
    (within : WithinWeek direction today day) : OnSide direction today day := by
  cases direction with
  | none =>
      simp only [WithinWeek, OnSide] at *
      omega
  | some side =>
      cases side with
      | next | last =>
          simp only [WithinWeek, OnSide] at *
          omega
      | this => exact within.1

theorem near_of_within_week {direction : Option Direction} {today day : Int}
    (within : WithinWeek direction today day) : (day - today).natAbs ≤ 7 := by
  cases direction with
  | none =>
      simp only [WithinWeek] at within
      omega
  | some side =>
      cases side with
      | next | this | last =>
          simp only [WithinWeek] at within
          omega

/-- Of the days of one weekday, which are seven days apart, only one is within a week on that side,
and it is the nearest. -/
theorem nearest_of_within_week {weekday today day : Int} {direction : Option Direction}
    (within : WithinWeek direction today day) (falls : (day - weekday) % 7 = 0) :
    Nearest weekday direction today day := by
  refine ⟨?_, on_side_of_within_week within, ?_⟩
  · rw [Date.weekdayOf]
    omega
  · intro other otherFalls side
    rw [Date.weekdayOf] at otherFalls
    cases direction with
    | none =>
        simp only [WithinWeek, OnSide] at *
        omega
    | some wanted =>
        cases wanted with
        | next | this | last =>
            simp only [WithinWeek, OnSide] at *
            omega

/-- The days are counted from today's midnight to that of the day that is meant, which is reached
unless it is outside of the calendar: by the clock, or for today by UTC. -/
theorem ground_day_of_week_reaches {weekday : Int} {direction : Option Direction} {ref : Moment}
    (regular : ref.zone.Regular) (here : ref.zone.Displays (midnight ref.date)) {d : Date}
    (proper : d.Proper) (counted : d.dayNumber = ref.date.dayNumber +
      daysTo (Date.weekdayOf ref.date.dayNumber) weekday direction)
    (there : ref.zone.Displays (midnight d)) :
    (∃ m, groundDayOfWeek weekday direction ref = .ok m ∧ m.zone = ref.zone ∧
        m.reading = midnight d) ∨
      groundDayOfWeek weekday direction ref = .error .outOfRange ∧
        (d.isValid = false ∨ d = ref.date ∧ ¬ Reaches ref.zone (midnight d)) := by
  have today : ref.startOfDay = ⟨ref.zone, midnight ref.date, ref.fold⟩ := by
    rw [start_of_day_eq, at_local_of_displays regular here]
  have weekdays : ref.startOfDay.weekday = Date.weekdayOf ref.date.dayNumber := by
    rw [weekday_eq, today, Moment.date, date_midnight ref.proper, Date.weekday]
  rw [ground_day_of_week_eq, weekdays, today]
  generalize daysTo (Date.weekdayOf ref.date.dayNumber) weekday direction = days at counted
  have target : (midnight d).ticks = (midnight ref.date).ticks + days * ticksPerDay := by
    rw [midnight, midnight, counted]
    exact Int.add_mul _ _ _
  have outcome := add_day_reaches (m := ⟨ref.zone, midnight ref.date, ref.fold⟩) regular here target
    there
  rcases outcome with found | ⟨failed, outside | ⟨none, outside⟩⟩
  · exact .inl found
  · rw [is_representable_midnight proper] at outside
    exact .inr ⟨failed, .inl outside⟩
  · have same : d = ref.date := proper.eq_of_day_number ref.proper (by omega)
    exact .inr ⟨failed, .inr ⟨same, outside⟩⟩

/-- For every reference within a week of which the clock is put forward over no midnight, a day of
the week resolves to midnight of the nearest date with that weekday: ahead of the reference, from it
on for "this", or before it for "last". The weekday is counted round the week. The date is found
unless it is outside of years 1 to 9999, by the clock or, where it is that of the reference itself,
by UTC. -/
theorem ground_day_of_week_nearest (c : Context) (weekday : Int) (direction : Option Direction)
    (ref : Moment) (regular : ref.zone.Regular)
    (shown : ∀ d : Date, (d.dayNumber - ref.date.dayNumber).natAbs ≤ 7 →
      ¬ ref.zone.Skips (midnight d)) :
    ∃ d : Date, d.Proper ∧ Nearest weekday direction ref.date.dayNumber d.dayNumber ∧
      WithinWeek direction ref.date.dayNumber d.dayNumber ∧
      ((∃ m, (dayOfWeek weekday direction).ground c ref = .ok (m, .day) ∧ m.zone = ref.zone ∧
          m.reading = midnight d) ∨
        (dayOfWeek weekday direction).ground c ref = .error .outOfRange ∧
          (d.isValid = false ∨ d = ref.date ∧ ¬ Reaches ref.zone (midnight d))) := by
  have displays : ∀ d : Date, (d.dayNumber - ref.date.dayNumber).natAbs ≤ 7 →
      ref.zone.Displays (midnight d) := fun d near => (regular.displays_iff _).mpr (shown d near)
  obtain ⟨within, falls⟩ := days_to_spec ref.date.dayNumber weekday direction
  have counted := Date.day_number_of_day_number (ref.date.dayNumber +
    daysTo (Date.weekdayOf ref.date.dayNumber) weekday direction)
  have proper := Date.of_day_number_proper (ref.date.dayNumber +
    daysTo (Date.weekdayOf ref.date.dayNumber) weekday direction)
  generalize Date.ofDayNumber (ref.date.dayNumber +
    daysTo (Date.weekdayOf ref.date.dayNumber) weekday direction) = d at counted proper
  rw [← counted] at within falls
  refine ⟨d, proper, nearest_of_within_week within falls, within, ?_⟩
  rw [ground]
  rcases ground_day_of_week_reaches regular (displays ref.date (by omega)) proper counted
    (displays d (near_of_within_week within)) with ⟨m, found, zone, reading⟩ | ⟨failed, outside⟩
  · rw [found, ok_bind]
    exact .inl ⟨m, rfl, zone, reading⟩
  · rw [failed]
    exact .inr ⟨rfl, outside⟩

/-- Noon of the Sunday in 2013 on which the clock is put forward in Paris. -/
def parisSunday : Moment :=
  ⟨Zone.paris, LocalTime.make ⟨2013, 3, 31⟩ 12 0 0 0, false⟩

/-- From there the next Sunday is 7 April. -/
theorem paris_sunday_nearest : parisSunday.zone.Regular ∧
    (∀ d : Date, (d.dayNumber - parisSunday.date.dayNumber).natAbs ≤ 7 →
      ¬ parisSunday.zone.Skips (midnight d)) ∧
    Nearest 6 none parisSunday.date.dayNumber (Date.dayNumber ⟨2013, 4, 7⟩) ∧
    ∃ m, (dayOfWeek 6 none).ground { now := parisSunday } parisSunday = .ok (m, .day) ∧
      m.reading = midnight ⟨2013, 4, 7⟩ := by
  have regular : parisSunday.zone.Regular := paris_regular
  have shown : ∀ d : Date, (d.dayNumber - parisSunday.date.dayNumber).natAbs ≤ 7 →
      ¬ parisSunday.zone.Skips (midnight d) := fun d _ => paris_shows_midnights d
  have ran : ((dayOfWeek 6 none).ground { now := parisSunday } parisSunday).toOption.map
      (·.1.reading) = some (midnight ⟨2013, 4, 7⟩) := by decide +kernel
  obtain ⟨d, proper, nearest, -, outcome⟩ :=
    ground_day_of_week_nearest { now := parisSunday } 6 none parisSunday regular shown
  obtain ⟨⟨m, grain⟩, found, reading⟩ := exists_ok_of_map ran
  rcases outcome with ⟨other, grounds, -, midnights⟩ | ⟨failed, -⟩
  · rw [grounds] at found
    cases found
    have same : d = ⟨2013, 4, 7⟩ := by
      rw [← date_midnight proper, ← midnights, reading]
      decide +kernel
    rw [same] at nearest
    exact ⟨regular, shown, nearest, m, grounds, reading⟩
  · rw [failed] at found
    cases found

/-- The evening of the first day of the calendar, 14 hours ahead of UTC. -/
def firstEvening : Moment :=
  ⟨gmtMinus14, LocalTime.make ⟨1, 1, 1⟩ 20 0 0 0, false⟩

/-- That day is a Monday, and "this Monday" it is out of range. -/
theorem first_evening_out_of_range : firstEvening.zone.Regular ∧ firstEvening.zone.ShowsMidnights ∧
    Nearest 0 (some .this) firstEvening.date.dayNumber (Date.dayNumber ⟨1, 1, 1⟩) ∧
    (dayOfWeek 0 (some .this)).ground { now := firstEvening } firstEvening =
      .error .outOfRange := by
  have one : firstEvening.zone.HasOneOffset := has_one_offset_fixed _ (by decide)
  refine ⟨one.regular, one.shows_midnights, nearest_of_within_week ?_ (by decide), by
      decide +kernel⟩
  rw [WithinWeek]
  decide +kernel

end TimeForm

end Reckon

import Reckon.Proofs.Clock.OneOffset
import Reckon.Proofs.Resolution.ClockTimes
import Reckon.Proofs.Resolution.Weekdays

/-!
# Ranges of clock times and of weekdays

The end of a range is looked for from its start on. On a clock of one offset it is found within a
day of the start, if both are clock times, and within a week, if both are weekdays, so that the
range is never refused.
-/

set_option autoImplicit false

namespace Reckon

open Sequencing Moment Zone LocalTime

namespace ClockTime

variable {t : ClockTime} {floor u : LocalTime}

theorem Reads.yesterday (reads : t.Reads u) : t.Reads ⟨u.ticks - ticksPerDay⟩ := by
  obtain ⟨hour, minute, whole⟩ := reads
  have sameHour : (LocalTime.mk (u.ticks - ticksPerDay)).hour = u.hour := by
    simp only [LocalTime.hour, ticksPerDay, ticksPerHour, ticksPerMinute, ticksPerSecond]
    omega
  have sameMinute : (LocalTime.mk (u.ticks - ticksPerDay)).minute = u.minute := by
    simp only [LocalTime.minute, ticksPerDay, ticksPerHour, ticksPerMinute, ticksPerSecond]
    omega
  refine ⟨sameHour ▸ hour, sameMinute ▸ minute, ?_⟩
  simp only [second, microsecond, ticksPerDay, ticksPerHour, ticksPerMinute, ticksPerSecond] at *
  omega

theorem FirstFrom.lt_day (first : t.FirstFrom floor u) :
    u.ticks < floor.ticks + ticksPerDay := by
  by_contra late
  have earlier := first.first _ first.reads.yesterday (by simp only; omega)
  simp only [ticks_per_day_eq] at earlier
  omega

/-- A reading of a clock time is the start of its minute. -/
theorem Reads.floor_to (reads : t.Reads u) : u.floorTo ticksPerMinute = u := by
  have whole := reads.whole
  refine congrArg LocalTime.mk ?_
  simp only [second, microsecond, ticksPerMinute, ticksPerSecond] at *
  omega

end ClockTime

/-- Neither "this" nor "last": the weekday is looked for after today. -/
def LooksAhead (direction : Option Direction) : Prop :=
  direction = none ∨ direction = some .next

namespace TimeForm

theorem ground_time_of_day_found (c : Context) (ref : Moment) (one : ref.zone.HasOneOffset)
    {t : ClockTime} (proper : t.Proper)
    (inside : 1 ≤ ref.dayNumber ∧ ref.dayNumber + 1 < Date.endOfDays) :
    ∃ u fold, (timeOfDay t).ground c ref = .ok (⟨ref.zone, u, fold⟩, t.grain) ∧
      t.FirstFrom (ref.reading.floorTo ticksPerMinute) u ∧
      (u.dayNumber = ref.dayNumber ∨ u.dayNumber = ref.dayNumber + 1) := by
  obtain ⟨u, first, near⟩ := proper.exists_first_from (ref.reading.floorTo ticksPerMinute)
  rw [day_number_floor_to_minute] at near
  have last : Date.endOfDays = 3652059 := by decide +kernel
  have within : ref.reading.isRepresentable = true := by
    rw [is_representable_iff]
    simp only [Moment.dayNumber, LocalTime.dayNumber, ticks_per_day_eq] at *
    omega
  have opened : 0 ≤ ref.startOfDay.instant := by
    have bounds := instant_start_of_day one.regular (one.steady ref.dayNumber)
    simp only [ticks_per_day_eq] at bounds
    omega
  obtain ⟨fold, found⟩ := ground_time_of_day_eq one.regular within (one.steady _)
      (one.steady _) proper
    opened first near
  have reaches : u.isRepresentable = true := by
    rw [is_representable_iff]
    simp only [Moment.dayNumber, LocalTime.dayNumber, ticks_per_day_eq] at *
    omega
  rw [if_pos reaches] at found
  refine ⟨u, fold, ?_, first, near⟩
  rw [ground, found]
  rfl

theorem ground_day_of_week_found (c : Context) (ref : Moment) (one : ref.zone.HasOneOffset)
    (weekday : Int) {direction : Option Direction} (ahead : LooksAhead direction)
    (inside : 0 ≤ ref.date.dayNumber ∧ ref.date.dayNumber + 7 < Date.endOfDays) :
    ∃ (d : Date) (fold : Bool), d.Proper ∧
      (dayOfWeek weekday direction).ground c ref = .ok (⟨ref.zone, midnight d, fold⟩, .day) ∧
      d.weekday = weekday % 7 ∧
      ref.date.dayNumber + 1 ≤ d.dayNumber ∧ d.dayNumber ≤ ref.date.dayNumber + 7 := by
  obtain ⟨within, falls⟩ := days_to_spec ref.date.dayNumber weekday direction
  have counted := Date.day_number_of_day_number (ref.date.dayNumber +
    daysTo (Date.weekdayOf ref.date.dayNumber) weekday direction)
  have proper := Date.of_day_number_proper (ref.date.dayNumber +
    daysTo (Date.weekdayOf ref.date.dayNumber) weekday direction)
  generalize Date.ofDayNumber (ref.date.dayNumber +
    daysTo (Date.weekdayOf ref.date.dayNumber) weekday direction) = d at counted proper
  rw [← counted] at within falls
  have onDay : d.weekday = weekday % 7 := by
    rw [Date.weekday, Date.weekdayOf]
    omega
  have week : ref.date.dayNumber + 1 ≤ d.dayNumber ∧ d.dayNumber ≤ ref.date.dayNumber + 7 := by
    rcases ahead with rfl | rfl
    · exact within
    · exact within
  have valid : d.isValid = true := by
    rw [← is_representable_midnight proper, is_representable_iff, midnight]
    have last : Date.endOfDays = 3652059 := by decide +kernel
    simp only [ticks_per_day_eq]
    omega
  rcases ground_day_of_week_reaches one.regular (one.displays _) proper counted
      (one.displays _) with
    ⟨m, found, zone, reading⟩ | ⟨-, outside | ⟨same, -⟩⟩
  · refine ⟨d, m.fold, proper, ?_, onDay, week⟩
    rw [ground, found, ← zone, ← reading]
    rfl
  · rw [valid] at outside
    cases outside
  · rw [same] at week
    omega

end TimeForm

namespace Value

open TimeForm

/-- On a clock of one offset, away from the ends of the calendar, a range from one clock time to
another resolves: it starts when the clock first reads the one from the minute of the reference on,
ends when it first reads the other from then on, and is shorter than a day. A range from one weekday
to another, looked for ahead, resolves: it starts on the first weekday within the week after the
reference, and is of one to seven whole days. -/
theorem resolve_ranges (c : Context) (precision : Precision) (latent : Bool)
    (one : c.zone.HasOneOffset)
    (inside : 1 ≤ c.now.dayNumber ∧ c.now.dayNumber + 14 < Date.endOfDays) :
    (∀ a b : ClockTime, a.Proper → b.Proper → ∃ start stop : Moment,
      (between (.timeOfDay a) (.timeOfDay b) precision latent).resolve .datetime c =
          .ok (.interval start stop (a.grain.finer b.grain) precision latent) ∧
        a.FirstFrom (c.now.reading.floorTo ticksPerMinute) start.reading ∧
        b.FirstFrom start.reading stop.reading ∧
        start.instant ≤ stop.instant ∧ stop.instant < start.instant + ticksPerDay) ∧
    ∀ (a b : Int) (direction other : Option Direction), LooksAhead direction → LooksAhead other →
      ∃ (start stop : Moment) (days : Int),
        (between (.dayOfWeek a direction) (.dayOfWeek b other) precision latent).resolve
            .datetime c =
          .ok (.interval start stop .day precision latent) ∧
          start.weekday = a % 7 ∧ stop.weekday = b % 7 ∧
          stop.instant = start.instant + days * ticksPerDay ∧ (1 ≤ days ∧ days ≤ 7) ∧
          c.now.date.dayNumber + 1 ≤ start.date.dayNumber ∧
          start.date.dayNumber ≤ c.now.date.dayNumber + 7 := by
  have today : c.now.date.dayNumber = c.now.dayNumber := day_number_date c.now.reading
  have clock : c.now.zone.HasOneOffset := one
  have counted : ∀ t fold, (Moment.mk c.now.zone t fold).instant =
      t.ticks - c.now.zone.offsetAt 0 * ticksPerSecond :=
    fun t fold => instant_of_one (m := ⟨c.now.zone, t, fold⟩) clock
  constructor
  · intro a b properStart properStop
    obtain ⟨u, fold, starts, opens, near⟩ :=
      ground_time_of_day_found c c.now clock properStart (by omega)
    have next : (Moment.mk c.now.zone u fold).dayNumber = u.dayNumber := rfl
    obtain ⟨v, other, stops, closes, -⟩ :=
      ground_time_of_day_found c ⟨c.now.zone, u, fold⟩ clock properStop (by omega)
    -- the start has no seconds, so the end is looked for from the start itself on
    simp only [opens.reads.floor_to] at closes
    have ends : Ends c (.timeOfDay a) (.timeOfDay b) (⟨c.now.zone, u, fold⟩, a.grain)
        (⟨c.now.zone, v, other⟩, b.grain) := ⟨starts, stops⟩
    have order : (Moment.mk c.now.zone v other).isBefore ⟨c.now.zone, u, fold⟩ = false :=
      decide_eq_false (not_lt.mpr closes.after)
    have after := closes.after
    have soon := closes.lt_day
    refine ⟨⟨c.now.zone, u, fold⟩, ⟨c.now.zone, v, other⟩, ?_, opens, closes, ?_, ?_⟩
    · rw [ends.resolve, order]
      rfl
    · rw [counted, counted]
      omega
    · rw [counted, counted]
      omega
  · intro a b direction other ahead further
    obtain ⟨d, fold, proper, starts, opens, low, high⟩ :=
      ground_day_of_week_found c c.now clock a ahead (by omega)
    have onDate : ∀ (d : Date) (fold : Bool), d.Proper →
        (Moment.mk c.now.zone (midnight d) fold).date = d := fun d _ proper => date_midnight proper
    have next := congrArg Date.dayNumber (onDate d fold proper)
    obtain ⟨e, last, properStop, stops, closes, after, soon⟩ :=
      ground_day_of_week_found c ⟨c.now.zone, midnight d, fold⟩ clock b further (by omega)
    rw [next] at after soon
    have ends : Ends c (.dayOfWeek a direction) (.dayOfWeek b other)
        (⟨c.now.zone, midnight d, fold⟩, .day) (⟨c.now.zone, midnight e, last⟩, .day) :=
      ⟨starts, stops⟩
    have order : (Moment.mk c.now.zone (midnight e) last).isBefore ⟨c.now.zone, midnight d, fold⟩ =
        false := by
      rw [isBefore, decide_eq_false_iff_not, not_lt]
      simp only [midnight, ticks_per_day_eq]
      omega
    refine ⟨⟨c.now.zone, midnight d, fold⟩, ⟨c.now.zone, midnight e, last⟩,
      e.dayNumber - d.dayNumber, ?_, ?_, ?_, ?_, by omega, ?_⟩
    · rw [ends.resolve, order]
      rfl
    · rw [weekday_eq, onDate d fold proper, opens]
    · rw [weekday_eq, onDate e last properStop, closes]
    · rw [counted, counted]
      simp only [midnight, ticks_per_day_eq]
      omega
    · rw [next]
      exact ⟨low, high⟩

/-- From half past four on Tuesday morning, from nine o'clock to half past five is in the evening,
as both may be after noon; from Friday to Tuesday is from the next Friday on. -/
theorem training_ranges : Context.training.zone.HasOneOffset ∧
    (1 ≤ Context.training.now.dayNumber ∧
      Context.training.now.dayNumber + 14 < Date.endOfDays) ∧
    ClockTime.Proper { hour := 9, ambiguous := true } ∧
    ClockTime.Proper { hour := 5, minute := 30, ambiguous := true } ∧
    (∃ start stop : Moment, (between (.timeOfDay { hour := 9, ambiguous := true })
        (.timeOfDay { hour := 5, minute := 30, ambiguous := true }) .exact false).resolve .datetime
          Context.training = .ok (.interval start stop .minute .exact false) ∧
      start.reading = LocalTime.make ⟨2013, 2, 12⟩ 9 0 0 0 ∧
      stop.reading = LocalTime.make ⟨2013, 2, 12⟩ 17 30 0 0 ∧
      stop.instant < start.instant + ticksPerDay) ∧
    LooksAhead none ∧ LooksAhead (some .next) ∧
    ∃ (start stop : Moment) (days : Int), (between (.dayOfWeek 4 none) (.dayOfWeek 1 (some .next))
        .exact false).resolve .datetime Context.training =
          .ok (.interval start stop .day .exact false) ∧
      start.reading = midnight ⟨2013, 2, 15⟩ ∧ stop.reading = midnight ⟨2013, 2, 19⟩ ∧
      stop.instant = start.instant + days * ticksPerDay ∧ 1 ≤ days ∧ days ≤ 7 := by
  have one : Context.training.zone.HasOneOffset := has_one_offset_fixed "UTC" (by decide)
  have inside : 1 ≤ Context.training.now.dayNumber ∧
      Context.training.now.dayNumber + 14 < Date.endOfDays := by decide +kernel
  have nine : ClockTime.Proper { hour := 9, ambiguous := true } := ⟨by decide, by decide⟩
  have halfPast : ClockTime.Proper { hour := 5, minute := 30, ambiguous := true } :=
    ⟨by decide, by decide⟩
  obtain ⟨times, weekdays⟩ := resolve_ranges Context.training .exact false one inside
  obtain ⟨start, stop, ran, -, -, -, short⟩ := times _ _ nine halfPast
  obtain ⟨first, last, days, found, -, -, whole, week, -⟩ :=
    weekdays 4 1 none (some .next) (.inl rfl) (.inr rfl)
  have hours : (between (.timeOfDay { hour := 9, ambiguous := true })
      (.timeOfDay { hour := 5, minute := 30, ambiguous := true }) .exact false).resolve .datetime
        Context.training = .ok (.interval ⟨Zone.utc, LocalTime.make ⟨2013, 2, 12⟩ 9 0 0 0, false⟩
          ⟨Zone.utc, LocalTime.make ⟨2013, 2, 12⟩ 17 30 0 0, false⟩ .minute .exact false) :=
    ok_of_to_option (by decide +kernel)
  have friday : (between (.dayOfWeek 4 none) (.dayOfWeek 1 (some .next)) .exact false).resolve
      .datetime Context.training = .ok (.interval ⟨Zone.utc, midnight ⟨2013, 2, 15⟩, true⟩
        ⟨Zone.utc, midnight ⟨2013, 2, 19⟩, true⟩ .day .exact false) :=
    ok_of_to_option (by decide +kernel)
  rw [hours] at ran
  rw [friday] at found
  cases ran
  cases found
  exact ⟨one, inside, nine, halfPast, ⟨_, _, hours, rfl, rfl, short⟩, .inl rfl, .inr rfl,
    _, _, days, friday, rfl, rfl, whole, week⟩

end Value

end Reckon

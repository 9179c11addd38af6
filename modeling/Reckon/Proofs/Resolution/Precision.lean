import Reckon.Proofs.Clock.OneOffset
import Reckon.Proofs.Resolution.CalendarFields
import Reckon.Proofs.Resolution.ClockTimes
import Reckon.Proofs.Resolution.DateShifts

/-!
# How precise a moment is

On a clock of one offset the grain of what a form resolves to is the precision of its moment: the
moment starts a bucket of the grain, and truncation to the grain leaves it as it is, but for a first
week of the calendar that is not all in it by UTC. Only a shift by hours, minutes or seconds
resolves to a grain that is coarser than its moment may be.
-/

set_option autoImplicit false

namespace Reckon

open Sequencing Moment Zone LocalTime

namespace LocalTime

variable {grain : Grain} {t : LocalTime}

theorem bucket_start_bucket_start (grain : Grain) (weekStart : Int) (t : LocalTime) :
    bucketStart grain weekStart (bucketStart grain weekStart t) =
      bucketStart grain weekStart t := by
  have begins := begins_bucket_start grain weekStart t
  exact (begins_bucket_start grain weekStart _).eq (begins.of_same begins.same)

theorem bucket_start_short (short : grain.size < Grain.day.size) (weekStart : Int) (t : LocalTime) :
    bucketStart grain weekStart t = t.floorTo (grain.seconds * ticksPerSecond) := by
  cases grain with
  | second | minute | hour => rfl
  | day | week | month | year => simp [Grain.size] at short

theorem floor_to_eq_iff (unit : Int) (t : LocalTime) :
    t.floorTo unit = t ↔ t.ticks % unit = 0 := by
  constructor
  · intro same
    have ticks := congrArg LocalTime.ticks same
    simp only [floorTo] at ticks
    omega
  · intro whole
    rw [floorTo, whole, Int.sub_zero]

end LocalTime

theorem ClockTime.bucket_start_make (t : ClockTime) (weekStart : Int) (d : Date) (hour : Int) :
    bucketStart t.grain weekStart (make d hour t.minute 0 0) = make d hour t.minute 0 0 := by
  rw [ClockTime.grain]
  split
  · rw [bucketStart, floor_to_eq_iff, make]
    simp only [ticksPerDay, ticksPerHour, ticksPerMinute, ticksPerSecond]
    omega
  · rw [bucketStart, floor_to_eq_iff, make]
    simp only [ticksPerDay, ticksPerHour, ticksPerMinute, ticksPerSecond]
    omega

namespace Moment

variable {z : Zone} {grain : Grain} {weekStart : Int} {m ref : Moment}

/-- A moment of a zone that starts a bucket; one that starts a week is within the calendar. -/
structure IsStart (z : Zone) (grain : Grain) (weekStart : Int) (m : Moment) : Prop where
  zone : m.zone = z
  start : bucketStart grain weekStart m.reading = m.reading
  within : grain = .week → m.reading.isRepresentable = true

theorem start_of_is_start (one : ref.zone.HasOneOffset) (grain : Grain) (weekStart : Int) :
    Yields (IsStart ref.zone grain weekStart) (ref.startOf grain weekStart) := by
  have idem := bucket_start_bucket_start grain weekStart ref.reading
  by_cases short : grain = .week
  · subst short
    intro s started
    have long : Grain.day.size ≤ Grain.week.size := by decide
    have within := started
    rw [start_of_week_eq one.regular (one.displays _)] at within
    refine ⟨start_of_is_in rfl .week weekStart s started, ?_, fun _ =>
      add_is_representable (m := ⟨ref.zone, ref.reading.floorTo ticksPerDay, ref.fold⟩) one .day _ s
        within⟩
    rcases start_of_reaches one.regular one.shows_midnights (one.displays _) long weekStart with
      ⟨r, same, -, midnight, -⟩ | ⟨failed, -⟩
    · rw [started] at same
      cases same
      have reading : s.reading = bucketStart .week weekStart ref.reading :=
        midnight.trans (bucket_start_eq long weekStart ref.reading).symm
      rw [reading, idem]
    · rw [started] at failed
      cases failed
  · rw [start_of_of_displays one.regular (begins_bucket_start grain weekStart ref.reading)
      (one.displays _) short]
    exact yields_ok ⟨rfl, idem, fun week => absurd week short⟩

/-- From the start of one bucket a count of its grain comes to the start of another. -/
theorem IsStart.add (starts : m.IsStart z grain weekStart) (one : z.HasOneOffset) (n : Int) :
    Yields (IsStart z grain weekStart) (m.add grain n) := by
  obtain ⟨rfl, start, -⟩ := starts
  intro r added
  refine ⟨add_is_in rfl grain n r added, ?_, fun _ => add_is_representable one grain n r added⟩
  -- the longer grains go from date to date, the finer ones by whole units of the clock
  by_cases long : Grain.day.size ≤ grain.size
  · have opening := start.symm.trans (bucket_start_eq long weekStart m.reading)
    by_cases none : n = 0
    · rw [none, add_none] at added
      have reading := add_elapsed_reading one 0 r added
      have same : r.reading = m.reading := congrArg LocalTime.mk (reading.trans (Int.add_zero _))
      rw [same, start]
    · have tiles := Date.tiles_bucket_from long weekStart m.proper
      rw [add_bucket one.regular one.shows_midnights long opening none] at added
      split_ifs at added
      cases added
      exact bucket_start_midnight long (tiles.proper n) (tiles.starts n)
  · have short := not_le.mp long
    rw [add_short m short] at added
    have reading := add_elapsed_reading one _ r added
    rw [bucket_start_short short, floor_to_eq_iff] at start ⊢
    rw [reading, Int.mul_assoc, Int.add_mul_emod_self_right, start]

theorem set_time_is_start (one : z.HasOneOffset) (inside : m.zone = z) (t : ClockTime)
    (hour : Int) :
    Yields (IsStart z t.grain weekStart) (m.setTime hour t.minute 0 0) := by
  subst inside
  have fine : t.grain ≠ .week := by
    rw [ClockTime.grain]
    split <;> simp
  unfold setTime
  split
  · rw [withReading, one.at_local_eq]
    exact yields_ok ⟨rfl, t.bucket_start_make weekStart m.date hour, fun week => absurd week fine⟩
  · exact yields_error _ _

theorem is_start_midnight (long : Grain.day.size ≤ grain.size) (short : grain ≠ .week) {d : Date}
    (zone : m.zone = z) (reading : m.reading = midnight d) (proper : d.Proper)
    (starts : d.StartsBucket grain weekStart) : m.IsStart z grain weekStart :=
  ⟨zone, reading.symm ▸ bucket_start_midnight long proper starts, fun week => absurd week short⟩

end Moment

namespace TimeForm

variable {z : Zone} {ref : Moment} {weekStart : Int}

theorem ground_day_of_week_is_start (one : ref.zone.HasOneOffset) (weekday : Int)
    (direction : Option Direction) :
    Yields (IsStart ref.zone .day weekStart) (groundDayOfWeek weekday direction ref) := by
  have today := start_of_is_start one .day weekStart ref.startOfDay rfl
  unfold groundDayOfWeek
  simp only
  split
  · exact today.add one _
  · exact today.add one _

theorem ground_calendar_midnight (one : ref.zone.HasOneOffset) (p : PartialDate) :
    Yields (fun m => m.zone = ref.zone ∧ m.reading = midnight m.date) (groundCalendar p ref) := by
  refine ground_calendar_yields (fun d => ?_) p
  unfold ofDate?
  split
  · apply yields_ok
    intro m found
    split at found
    · rename_i valid
      have proper := ((Date.is_valid_iff d).mp valid).2
      cases found
      rw [one.at_local_eq]
      exact ⟨rfl, congrArg midnight (date_midnight proper).symm⟩
    · cases found
  · exact yields_error _ _

theorem ground_calendar_is_start (one : ref.zone.HasOneOffset) (p : PartialDate) :
    Yields (IsStart ref.zone p.grain weekStart) (groundCalendar p ref) := by
  intro m found
  obtain ⟨zone, reading⟩ := ground_calendar_midnight one p m found
  have opens : p.day.isSome = false → p.Opens m.date := fun none =>
    ground_calendar_opens one.regular (fun names => Bool.false_ne_true (none.symm.trans names.1)) m
      found
  rw [PartialDate.grain]
  by_cases day : p.day.isSome = true
  · rw [if_pos day]
    exact is_start_midnight le_rfl (by simp) zone reading m.proper trivial
  · have first := opens (eq_false_of_ne_true day)
    rw [if_neg day]
    by_cases month : p.month.isSome = true
    · rw [if_pos month]
      exact is_start_midnight (by decide) (by simp) zone reading m.proper first.day
    · have january : m.date.month = 1 := by
        rw [first.month, Option.not_isSome_iff_eq_none.mp month]
        rfl
      rw [if_neg month]
      exact is_start_midnight (by decide) (by simp) zone reading m.proper ⟨january, first.day⟩

theorem ground_time_of_day_is_start (one : ref.zone.HasOneOffset) (t : ClockTime) :
    Yields (IsStart ref.zone t.grain weekStart) (groundTimeOfDay t ref) := by
  have today := start_of_is_start one .day 0 ref.startOfDay rfl
  refine ground_time_of_day_yields fun n day added => reading_on_yields fun hour => ?_
  have opening := today.add one n day added
  have whole : day.reading.ticks % ticksPerDay = 0 := (floor_to_eq_iff _ _).mp opening.start
  have second : day.reading.second = 0 := by
    simp only [LocalTime.second, ticks_per_day_eq, ticksPerMinute, ticksPerSecond] at *
    omega
  have microsecond : day.reading.microsecond = 0 := by
    simp only [LocalTime.microsecond, ticks_per_day_eq, ticksPerSecond] at *
    omega
  rw [second, microsecond]
  exact set_time_is_start one opening.zone t hour

/-- A shift with a part that is finer than a day. -/
def ShiftsWithinDay : TimeForm → Prop
  | shift period _ => ¬ period.Long
  | now | relative _ _ | dayOfWeek _ _ | calendar _ | timeOfDay _ | timed _ _ | interval _ _
  | unknown _ => False

theorem ground_is_start (c : Context) (one : ref.zone.HasOneOffset) {form : TimeForm}
    (whole : ¬ form.ShiftsWithinDay) :
    Yields (fun grounded => grounded.1.IsStart ref.zone grounded.2 c.weekStart)
      (form.ground c ref) := by
  cases form with
  | now =>
      rw [ground]
      exact yields_bind (start_of_is_start one _ _) fun m starts => yields_ok starts
  | relative grain n =>
      rw [ground]
      refine yields_bind (start_of_is_start one _ _) fun s starts => ?_
      exact yields_bind (starts.add one n) fun m there => yields_ok there
  | dayOfWeek weekday direction =>
      rw [ground]
      exact yields_bind (ground_day_of_week_is_start one _ _) fun m starts => yields_ok starts
  | calendar date =>
      rw [ground]
      exact yields_bind (ground_calendar_is_start one date) fun m starts => yields_ok starts
  | timeOfDay time =>
      rw [ground]
      exact yields_bind (ground_time_of_day_is_start one time) fun m starts => yields_ok starts
  | timed date time =>
      rw [ground]
      refine yields_bind (ground_grounds c date rfl) fun grounded day => ?_
      simp only
      split
      · exact yields_error _ _
      · exact yields_bind (set_time_is_start one day.zone time _) fun m starts => yields_ok starts
  | shift period sign =>
      intro grounded ran
      obtain ⟨m, -, date, rfl⟩ := ground_shift_long one.regular one.forward_early (one.displays _)
        (not_not.mp whole) sign ran
      rw [one.at_local_eq]
      exact is_start_midnight le_rfl (by simp) rfl rfl (date ▸ m.proper) trivial
  | interval start stop => exact yields_error _ _
  | unknown typeName => exact yields_error _ _

/-- The start of a week within the calendar is there by UTC too if it is not before it, which only
the first day of the calendar can be. -/
theorem in_calendar_iff_of_is_start (one : z.HasOneOffset) {m : Moment}
    (starts : m.IsStart z .week weekStart) :
    (z.InCalendar m.instant ↔ 0 ≤ m.instant) ∧ (m.instant < 0 → m.date = ⟨1, 1, 1⟩) := by
  obtain ⟨rfl, start, within⟩ := starts
  have ticks := congrArg LocalTime.ticks start
  have inside := within rfl
  have short := one.short
  have instant := instant_of_one one
  have reading := read_at_instant one.regular (one.displays m.reading)
  rw [is_representable_iff] at inside
  constructor
  · rw [InCalendar, reading, is_representable_iff, is_representable_iff]
    -- it is a midnight, so an offset of less than a day does not lead past the end
    simp only [bucketStart, LocalTime.dayNumber, ticks_per_day_eq, ticksPerSecond] at *
    omega
  · intro early
    have first : m.reading.dayNumber = 0 := by
      simp only [LocalTime.dayNumber, ticks_per_day_eq, ticksPerSecond] at *
      omega
    rw [Moment.date, LocalTime.date, first]
    decide

/-- On a clock of one offset, a form that is not a shift by hours, minutes or seconds resolves to a
moment that truncation to the grain of the form leaves as it is. Only a week that starts before the
calendar by UTC, which has to start on its first day, is out of range when truncated again. -/
theorem ground_precise (c : Context) (form : TimeForm) (ref m : Moment) (grain : Grain)
    (one : ref.zone.HasOneOffset) (whole : ¬ form.ShiftsWithinDay)
    (ran : form.ground c ref = .ok (m, grain)) :
    form.grain? c = some grain ∧
    (grain ≠ .week ∨ 0 ≤ m.instant →
      ∃ s, m.startOf grain c.weekStart = .ok s ∧ s.Same m) ∧
    (grain = .week ∧ m.instant < 0 →
      m.date = ⟨1, 1, 1⟩ ∧ m.startOf grain c.weekStart = .error .outOfRange) := by
  have starts : m.IsStart ref.zone grain c.weekStart := ground_is_start c one whole _ ran
  have grounds := ground_grounds c form rfl _ ran
  have onClock : m.zone.HasOneOffset := starts.zone.symm ▸ one
  have regular := onClock.regular
  refine ⟨grounds.grain, ?_, ?_⟩
  · intro clear
    by_cases week : grain = .week
    · subst week
      have after : 0 ≤ m.instant := clear.resolve_left fun other => other rfl
      have inside := (in_calendar_iff_of_is_start one starts).1.mpr after
      rw [← starts.zone] at inside
      refine ⟨readAt m.zone m.instant, ?_, rfl, ?_, instant_read_at regular _⟩
      · rw [start_of_week_same onClock starts.start, if_pos inside]
      · exact read_at_instant regular (onClock.displays _)
    · exact ⟨m, start_of_same onClock starts.start week, rfl, rfl, rfl⟩
  · rintro ⟨rfl, early⟩
    obtain ⟨inside, first⟩ := in_calendar_iff_of_is_start one starts
    rw [← starts.zone] at inside
    refine ⟨first early, ?_⟩
    rw [start_of_week_same onClock starts.start, if_neg (inside.not.mpr (not_le.mpr early))]

/-- Ten in the morning, five and a half hours ahead of UTC. -/
def aheadOfUtc : Moment :=
  ⟨Zone.fixed "+05:30" 19800, LocalTime.make ⟨2013, 2, 12⟩ 10 0 0 0, false⟩

/-- Three weeks before, a week began on Sunday 20 January. -/
theorem ahead_of_utc_precise : aheadOfUtc.zone.HasOneOffset ∧
    ¬ (relative .week (-3)).ShiftsWithinDay ∧
    ∃ m, (relative .week (-3)).ground { now := aheadOfUtc, weekStart := 6 } aheadOfUtc =
        .ok (m, .week) ∧
      m.reading = midnight ⟨2013, 1, 20⟩ ∧ 0 ≤ m.instant ∧
      ∃ s, m.startOf .week 6 = .ok s ∧ s.Same m := by
  have one : aheadOfUtc.zone.HasOneOffset := has_one_offset_fixed "+05:30" (by decide)
  have whole : ¬ (relative .week (-3)).ShiftsWithinDay := id
  have ran : (relative .week (-3)).ground { now := aheadOfUtc, weekStart := 6 } aheadOfUtc =
      .ok (⟨aheadOfUtc.zone, midnight ⟨2013, 1, 20⟩, true⟩, .week) :=
    ok_of_to_option (by decide +kernel)
  have after : 0 ≤ (Moment.mk aheadOfUtc.zone (midnight ⟨2013, 1, 20⟩) true).instant := by
    decide +kernel
  exact ⟨one, whole, _, ran, rfl, after,
    (ground_precise _ _ _ _ _ one whole ran).2.1 (.inr after)⟩

/-- The tenth day after the first of the calendar, 14 hours ahead of UTC. -/
def eleventhNoon : Moment :=
  ⟨gmtMinus14, LocalTime.make ⟨1, 1, 11⟩ 12 0 0 0, false⟩

/-- The week before began with the calendar, and truncated to the week that moment is out of range.
-/
theorem first_week_out_of_range : eleventhNoon.zone.HasOneOffset ∧
    ¬ (relative .week (-1)).ShiftsWithinDay ∧
    ∃ m, (relative .week (-1)).ground { now := eleventhNoon } eleventhNoon = .ok (m, .week) ∧
      m.reading = midnight ⟨1, 1, 1⟩ ∧ m.startOf .week 0 = .error .outOfRange := by
  have ran : (relative .week (-1)).ground { now := eleventhNoon } eleventhNoon =
      .ok (⟨gmtMinus14, midnight ⟨1, 1, 1⟩, true⟩, .week) :=
    ok_of_to_option (by decide +kernel)
  exact ⟨has_one_offset_fixed _ (by decide), id, _, ran, rfl, by decide +kernel⟩

end TimeForm

end Reckon

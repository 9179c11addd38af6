import Reckon.Proofs.Calendar.PeriodGrains
import Reckon.Proofs.Clock.Counting
import Reckon.Proofs.Clock.OnceShown
import Reckon.Proofs.Resolution.Grounding

/-!
# Shifts by days and longer

A shift by days, weeks, months and years moves the date, whatever the clock does on the way, and
resolves to midnight of the date that it comes to. Only where the clock skips or repeats that
midnight does the moment depend on more than the date: on the fold under which the shift arrives.
-/

set_option autoImplicit false

namespace Reckon

open Sequencing Moment Zone LocalTime

namespace Date

/-- The date so many days, weeks, months or years later; of the finer grains no number is a date. -/
def later (d : Date) (grain : Grain) (n : Int) : Date :=
  match grain with
  | .second | .minute | .hour => d
  | .day => ofDayNumber (d.dayNumber + n)
  | .week => ofDayNumber (d.dayNumber + 7 * n)
  | .month => d.addMonths 0 n
  | .year => d.addMonths n 0

variable {d : Date}

theorem Proper.later (proper : d.Proper) (grain : Grain) (n : Int) : (d.later grain n).Proper := by
  cases grain with
  | second | minute | hour => exact proper
  | day | week => exact of_day_number_proper _
  | month | year => exact proper.add_months _ _

theorem Proper.add_months_none (proper : d.Proper) : d.addMonths 0 0 = d := by
  have whole := proper.of_month_index_month_index
  have days := proper.day
  rw [ofMonthIndex, monthIndex] at whole
  have year := congrArg Date.year whole
  have month := congrArg Date.month whole
  simp only at year month
  rw [Date.addMonths]
  simp only [Int.add_zero]
  rw [year, month, min_eq_left days.2]

theorem Proper.later_none (proper : d.Proper) (grain : Grain) : d.later grain 0 = d := by
  cases grain with
  | second | minute | hour => rfl
  | day => rw [Date.later, Int.add_zero, proper.of_day_number_day_number]
  | week => rw [Date.later, Int.mul_zero, Int.add_zero, proper.of_day_number_day_number]
  | month | year => exact proper.add_months_none

end Date

namespace Period

/-- No grain of a period is finer than a day. -/
def Long (period : Period) : Prop :=
  ∀ part ∈ period, Grain.day.size ≤ part.1.size

/-- The date that the parts of a period lead to, added or taken off one after the other. -/
def dateFrom (sign : Int) (period : Period) (today : Date) : Date :=
  period.foldl (fun d part => d.later part.1 (sign * part.2)) today

end Period

namespace Moment

variable {z : Zone} {d : Date} {m : Moment}

/-- A moment at a reading of a date that the clock shows. -/
structure ShownOn (z : Zone) (d : Date) (m : Moment) : Prop where
  zone : m.zone = z
  shown : z.Displays m.reading
  date : m.date = d

theorem shown_on_at_local_true (regular : z.Regular) (forward : z.ForwardEarly) (proper : d.Proper)
    {t : LocalTime} (day : t.dayNumber = d.dayNumber) : ShownOn z d (atLocal z t true) :=
  ⟨at_local_is_in z t true, displays_at_local regular t true,
    date_eq proper ((day_number_at_local_true regular forward t).trans day)⟩

theorem ShownOn.add_elapsed_none (on : m.ShownOn z d) (regular : z.Regular) :
    Yields (ShownOn z d) (m.addElapsed 0) := by
  obtain ⟨rfl, shown, rfl⟩ := on
  have reading := read_at_instant regular shown
  rw [add_elapsed_none_eq regular shown]
  split
  · exact yields_ok ⟨rfl, reading.symm ▸ shown, congrArg LocalTime.date reading⟩
  · exact yields_error _ _

theorem ShownOn.add_days (on : m.ShownOn z d) (regular : z.Regular) (forward : z.ForwardEarly)
    (days : Int) :
    Yields (ShownOn z (Date.ofDayNumber (d.dayNumber + days))) (m.addDays days) := by
  obtain ⟨rfl, -, rfl⟩ := on
  unfold Moment.addDays
  simp only
  split
  · refine yields_ok (shown_on_at_local_true regular forward (Date.of_day_number_proper _) ?_)
    rw [day_number_add_days, Date.day_number_of_day_number, Moment.date, day_number_date]
  · exact yields_error _ _

theorem ShownOn.add_months (on : m.ShownOn z d) (regular : z.Regular) (forward : z.ForwardEarly)
    (years months : Int) : Yields (ShownOn z (d.addMonths years months))
    (m.addMonths years months) := by
  obtain ⟨rfl, -, rfl⟩ := on
  unfold Moment.addMonths
  simp only
  split
  · refine yields_ok (shown_on_at_local_true regular forward (m.proper.add_months _ _) ?_)
    simp only [LocalTime.dayNumber, ticks_per_day_eq]
    omega
  · exact yields_error _ _

/-- Days and longer grains are counted on the dates. A clock that is put forward over the time of
day is put forward before noon, so the reading is moved within its date. -/
theorem ShownOn.add (on : m.ShownOn z d) (regular : z.Regular) (forward : z.ForwardEarly)
    (proper : d.Proper) {grain : Grain} (long : Grain.day.size ≤ grain.size) (n : Int) :
    Yields (ShownOn z (d.later grain n)) (m.add grain n) := by
  by_cases none : n = 0
  · rw [none, proper.later_none, add_none]
    exact on.add_elapsed_none regular
  · unfold Moment.add
    rw [if_neg none]
    cases grain with
    | second | minute | hour => simp [Grain.size] at long
    | day => exact on.add_days regular forward n
    | week => exact on.add_days regular forward (7 * n)
    | month => exact on.add_months regular forward 0 n
    | year => exact on.add_months regular forward n 0

end Moment

namespace TimeForm

variable {z : Zone} {d : Date} {m : Moment} {period : Period}

theorem add_period_shown_on (regular : z.Regular) (forward : z.ForwardEarly) (long : period.Long)
    (sign : Int) (proper : d.Proper) (on : m.ShownOn z d) :
    Yields (ShownOn z (period.dateFrom sign d)) (addPeriod sign period m) := by
  -- each part leads from a moment on one date to a moment on the next
  induction period generalizing d m with
  | nil => exact yields_ok on
  | cons part rest ih =>
      obtain ⟨grain, n⟩ := part
      obtain ⟨head, tail⟩ := List.forall_mem_cons.mp long
      exact yields_bind (on.add regular forward proper head (sign * n)) fun next on =>
        ih tail (proper.later grain (sign * n)) on

/-- A shift by days and longer grains resolves to the midnight of the date that its parts come to,
by the fold under which they arrive. -/
theorem ground_shift_long {c : Context} {ref : Moment} {grounded : Grounded}
    (regular : ref.zone.Regular) (forward : ref.zone.ForwardEarly)
    (real : ref.zone.Displays ref.reading) (long : period.Long) (sign : Int)
    (ran : (shift period sign).ground c ref = .ok grounded) :
    ∃ m, addPeriod sign period ref = .ok m ∧ m.date = period.dateFrom sign ref.date ∧
      grounded = (atLocal ref.zone (midnight (period.dateFrom sign ref.date)) m.fold, .day) := by
  rw [ground, groundShift] at ran
  obtain ⟨m, arrived, rest⟩ := (bind_ok_iff _ _ _).mp ran
  have on := add_period_shown_on regular forward long sign ref.proper ⟨rfl, real, rfl⟩ m arrived
  refine ⟨m, arrived, on.date, ?_⟩
  cases known : period.finest? with
  | none =>
      rw [known] at rest
      cases rest
  | some finest =>
      have some : period ≠ [] := by
        rintro rfl
        cases known
      obtain ⟨part, listed, same⟩ := Period.exists_finest some
      rw [known, Option.some.injEq] at same
      have whole : Grain.day.size ≤ finest.size := same ▸ long part listed
      simp only [known, whole, if_true] at rest
      cases rest
      rw [start_of_day_eq, on.zone, on.date]

/-- From two contexts on one date, a shift by days, weeks, months and years, in any order, resolves
to midnight of the date that its parts lead to from there, to the day. If the clock shows that
midnight once, both resolve to the same moment. If the clock skips or repeats it, they do exactly if
they arrive under the same fold. -/
theorem ground_shift_date (c other : Context) (period : Period) (sign : Int)
    (first second : Grounded) (regular : c.zone.Regular) (forward : c.zone.ForwardEarly)
    (zones : other.zone = c.zone) (real : c.zone.Displays c.now.reading)
    (otherReal : c.zone.Displays other.now.reading)
    (date : other.now.date = c.now.date) (long : period.Long)
    (ran : (shift period sign).ground c c.now = .ok first)
    (otherRan : (shift period sign).ground other other.now = .ok second) :
    ∃ (d : Date) (m n : Moment), d = period.dateFrom sign c.now.date ∧
      (addPeriod sign period c.now = .ok m ∧ m.date = d) ∧
      (addPeriod sign period other.now = .ok n ∧ n.date = d) ∧
      first = (atLocal c.zone (midnight d) m.fold, .day) ∧
      second = (atLocal c.zone (midnight d) n.fold, .day) ∧
      (first.1.Same second.1 ↔ c.zone.ShowsOnce (midnight d) ∨ m.fold = n.fold) := by
  obtain ⟨m, arrives, onDate, rfl⟩ := ground_shift_long regular forward real long sign ran
  have there : other.now.zone = c.zone := zones
  obtain ⟨n, arrivesToo, onDateToo, rfl⟩ :=
    ground_shift_long (there ▸ regular) (there ▸ forward) (there ▸ otherReal) long sign otherRan
  rw [date] at onDateToo ⊢
  rw [there]
  exact ⟨_, m, n, rfl, ⟨arrives, onDate⟩, ⟨arrivesToo, onDateToo⟩, rfl, rfl,
    same_at_local_iff regular _ m.fold n.fold⟩

/-- From midnight and from noon of the day before the clock is put forward at midnight, a day and a
month lead to 30 April. -/
theorem beirut_shift_day_and_month : (beirut 3 30 0).zone.Regular ∧
    (beirut 3 30 0).zone.ForwardEarly ∧
    (beirut 3 30 0).zone.Displays (beirut 3 30 0).reading ∧
    (beirut 3 30 0).zone.Displays (beirut 3 30 12).reading ∧
    (beirut 3 30 12).date = (beirut 3 30 0).date ∧ Period.Long [(.day, 1), (.month, 1)] ∧
    ∃ first second, (shift [(.day, 1), (.month, 1)] 1).ground { now := beirut 3 30 0 }
        (beirut 3 30 0) = .ok (first, .day) ∧
      (shift [(.day, 1), (.month, 1)] 1).ground { now := beirut 3 30 12 }
        (beirut 3 30 12) = .ok (second, .day) ∧
      first.reading = midnight ⟨2013, 4, 30⟩ ∧ first.Same second := by
  have regular : (beirut 3 30 0).zone.Regular := beirut_regular
  have forward : (beirut 3 30 0).zone.ForwardEarly := beirut_forward_early
  have real : (beirut 3 30 0).zone.Displays (beirut 3 30 0).reading :=
    (regular.displays_iff _).mpr (by decide +kernel)
  have otherReal : (beirut 3 30 0).zone.Displays (beirut 3 30 12).reading :=
    (regular.displays_iff _).mpr (by decide +kernel)
  have date : (beirut 3 30 12).date = (beirut 3 30 0).date := by decide +kernel
  have long : Period.Long [(.day, 1), (.month, 1)] := by
    rw [Period.Long]
    decide
  have once : (beirut 3 30 0).zone.ShowsOnce (midnight ⟨2013, 4, 30⟩) :=
    ⟨by decide +kernel, by decide +kernel⟩
  have ran : (shift [(.day, 1), (.month, 1)] 1).ground { now := beirut 3 30 0 } (beirut 3 30 0) =
      .ok (⟨(beirut 3 30 0).zone, midnight ⟨2013, 4, 30⟩, true⟩, .day) :=
    ok_of_to_option (by decide +kernel)
  have otherRan : (shift [(.day, 1), (.month, 1)] 1).ground { now := beirut 3 30 12 }
      (beirut 3 30 12) = .ok (⟨(beirut 3 30 0).zone, midnight ⟨2013, 4, 30⟩, true⟩, .day) :=
    ok_of_to_option (by decide +kernel)
  obtain ⟨d, m, n, rfl, -, -, -, -, same⟩ := ground_shift_date
    { now := beirut 3 30 0 } { now := beirut 3 30 12 } [(.day, 1), (.month, 1)] 1 _ _
    regular forward rfl real otherReal date long ran otherRan
  have reached : Period.dateFrom 1 [(.day, 1), (.month, 1)] (beirut 3 30 0).date =
      ⟨2013, 4, 30⟩ := by
    decide +kernel
  exact ⟨regular, forward, real, otherReal, date, long, _, _, ran, otherRan, rfl,
    same.mpr (.inl (reached.symm ▸ once))⟩

/-- A day alone leads to the midnight that the clock skips. From midnight it is come to at one
o'clock and without the fold, which goes back to the day before; from noon it is not. -/
theorem beirut_shift_day : (beirut 3 30 0).zone.Regular ∧ (beirut 3 30 0).zone.ForwardEarly ∧
    (beirut 3 30 12).date = (beirut 3 30 0).date ∧
    (shift [(.day, 1)] 1).ground { now := beirut 3 30 0 } (beirut 3 30 0) =
      .ok (beirut 3 30 23, .day) ∧
    (shift [(.day, 1)] 1).ground { now := beirut 3 30 12 } (beirut 3 30 12) =
      .ok (beirut 3 31 1, .day) ∧
    ¬ (beirut 3 30 23).Same (beirut 3 31 1) := by
  refine ⟨beirut_regular, beirut_forward_early, by decide +kernel,
      ok_of_to_option (by decide +kernel),
    ok_of_to_option (by decide +kernel), fun same => ?_⟩
  exact absurd same.reading (by decide +kernel)

end TimeForm

end Reckon

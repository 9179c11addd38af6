import Reckon.Proofs.Clock.Counting

/-!
# Truncation to a week

A moment is truncated to a week by way of the midnight of its day, from which days are counted back.
That truncates exactly if the clock shows both that midnight and the one that starts the week. Where
it skips the start of the week, one of the two truncations goes back past it; where it skips the
midnight of a later day, the count ends after the start of the week.
-/

set_option autoImplicit false

namespace Reckon

open LocalTime Sequencing

namespace Moment

open LocalTime Zone

variable {grain : Grain} {weekStart : Int} {m s : Moment} {b : LocalTime}

theorem add_day_of_displays (regular : m.zone.Regular) (here : m.zone.Displays m.reading)
    {t : LocalTime} {days : Int} (counted : t.ticks = m.reading.ticks + days * ticksPerDay)
    (there : m.zone.Displays t) (reaches : Reaches m.zone t) :
    ∃ r, m.add .day days = .ok r ∧ r.zone = m.zone ∧ r.reading = t ∧
      r.instant = instantUnder (m.zone.offsetOf t (if days = 0 then m.fold else true)) t := by
  obtain ⟨reading, instants⟩ := reaches
  by_cases none : days = 0
  · have still : t = m.reading := by
      subst none
      simp only [Int.zero_mul, Int.add_zero] at counted
      exact congrArg LocalTime.mk counted
    subst still
    refine ⟨readAt m.zone m.instant, ?_, rfl, read_at_instant regular here, ?_⟩
    · rw [none, add_none, add_elapsed_none_eq regular here, if_pos ⟨instants m.fold, reading⟩]
    · rw [instant_read_at regular, if_pos none]
      rfl
  · refine ⟨⟨m.zone, t, true⟩, ?_, rfl, rfl, ?_⟩
    · rw [add_day_eq regular none counted there, if_pos reading]
    · rw [if_neg none]
      rfl

theorem start_of_week (m : Moment) (weekStart : Int) : m.startOf .week weekStart =
    m.startOfDay.add .day (-((m.startOfDay.reading.dayNumber - weekStart) % 7)) := by
  have weekday : (m.startOfDay.weekday - weekStart) % 7 =
      (m.startOfDay.reading.dayNumber - weekStart) % 7 := by
    simp only [Moment.weekday, LocalTime.weekday, Date.weekdayOf]
    omega
  rw [startOf, weekday]

theorem start_of_week_eq (regular : m.zone.Regular)
    (midnight : m.zone.Displays (m.reading.floorTo ticksPerDay)) : m.startOf .week weekStart =
      (Moment.mk m.zone (m.reading.floorTo ticksPerDay) m.fold).add .day
        (-((m.reading.dayNumber - weekStart) % 7)) := by
  have day : m.startOfDay = ⟨m.zone, m.reading.floorTo ticksPerDay, m.fold⟩ := by
    rw [startOfDay, withReading, at_local_of_displays regular midnight]
  have same : (m.reading.floorTo ticksPerDay).dayNumber = m.reading.dayNumber :=
    (floor_to_div (by decide) m.reading).symm
  rw [start_of_week, day, same]

theorem week_of_begins {t : LocalTime} (begins : Begins .week weekStart t b) :
    b.ticks = (t.dayNumber - (t.dayNumber - weekStart) % 7) * ticksPerDay :=
  (congrArg LocalTime.ticks ((begins_bucket_start .week weekStart t).eq begins)).symm

theorem floor_to_of_begins {t : LocalTime} (begins : Begins .week weekStart t b) :
    b.floorTo ticksPerDay = b := by
  have opened := week_of_begins begins
  apply congrArg LocalTime.mk
  simp only [ticks_per_day_eq] at *
  omega

theorem start_of_week_of_displays (regular : m.zone.Regular)
    (begins : Begins .week weekStart m.reading b) (shown : m.zone.Displays b)
    (midnight : m.zone.Displays (m.reading.floorTo ticksPerDay)) (reaches : Reaches m.zone b) :
    ∃ s, m.startOf .week weekStart = .ok s ∧ s.zone = m.zone ∧ s.reading = b ∧
      s.instant = instantUnder (m.zone.offsetOf b
        (if m.reading.dayNumber = b.dayNumber then m.fold else true)) b := by
  have opened := week_of_begins begins
  have day := ticks_floor_to ticksPerDay m.reading
  have today : -((m.reading.dayNumber - weekStart) % 7) = 0 ↔
      m.reading.dayNumber = b.dayNumber := by
    simp only [LocalTime.dayNumber, ticks_per_day_eq] at *
    omega
  have counted : b.ticks = (m.reading.floorTo ticksPerDay).ticks +
      -((m.reading.dayNumber - weekStart) % 7) * ticksPerDay := by
    simp only [LocalTime.dayNumber, ticks_per_day_eq] at *
    omega
  obtain ⟨s, added, zone, reading, instant⟩ :=
    add_day_of_displays (m := ⟨m.zone, m.reading.floorTo ticksPerDay, m.fold⟩) regular midnight
      counted shown reaches
  refine ⟨s, (start_of_week_eq regular midnight).trans added, zone, reading, ?_⟩
  rw [instant]
  simp only [today]

theorem start_of_week_truncates_to (regular : m.zone.Regular) (real : m.zone.Displays m.reading)
    (begins : Begins .week weekStart m.reading b) (shown : m.zone.Displays b)
    (midnight : m.zone.Displays (m.reading.floorTo ticksPerDay)) (reaches : Reaches m.zone b) :
    ∃ s, m.startOf .week weekStart = .ok s ∧ m.TruncatesTo .week weekStart s := by
  have least := begins.least m.reading (same_bucket_refl .week weekStart m.reading)
  have whole := floor_to_of_begins begins
  obtain ⟨s, started, zone, rfl, instant⟩ :=
    start_of_week_of_displays regular begins shown midnight reaches
  refine ⟨s, started, truncates_to_of_reading begins shown zone rfl ?_ ?_⟩
  · rw [instant]
    by_cases today : m.reading.dayNumber = s.reading.dayNumber
    · rw [if_pos today]
      exact regular.instant_under_le shown real least m.fold
    · refine regular.instant_under_le_of_apart ?_ _ _
      have floor := congrArg LocalTime.ticks whole
      simp only [floorTo, LocalTime.dayNumber, ticks_per_day_eq, ticksPerSecond] at *
      omega
  · rw [← zone] at regular shown reaches
    obtain ⟨r, again, zones, reading, instants⟩ :=
      start_of_week_of_displays regular (begins.of_same begins.same) shown
        (by rw [whole]; exact shown) reaches
    refine ⟨r, again, zones, reading, ?_⟩
    rw [instants, if_pos rfl]
    rfl

theorem week_lt_of_skips {z : Zone} (regular : z.Regular) {t u : LocalTime} (skipped : z.Skips t)
    (other : z.Skips u) (later : t.ticks + ticksPerDay ≤ u.ticks) :
    t.ticks + 7 * ticksPerDay < u.ticks := by
  by_contra near
  obtain ⟨change, before, after, around⟩ := regular.around (t.ticks - ticksPerDay)
  simp only [ticks_per_day_eq] at *
  obtain ⟨past, -⟩ := (around.skips_iff ⟨by rw [ticks_per_day_eq]; omega,
    by rw [ticks_per_day_eq]; omega⟩).mp skipped
  obtain ⟨-, ahead⟩ := (around.skips_iff ⟨by rw [ticks_per_day_eq]; omega,
    by rw [ticks_per_day_eq]; omega⟩).mp other
  have short := around.near
  simp only [ticksPerSecond] at *
  omega

theorem displays_start_of_day (regular : m.zone.Regular) : m.zone.Displays m.startOfDay.reading :=
  displays_at_local regular (m.reading.floorTo ticksPerDay) m.fold

theorem start_of_day_of_skips (skipped : m.zone.Skips (m.reading.floorTo ticksPerDay)) :
    m.startOfDay = ⟨m.zone, ⟨if m.fold then
      (m.reading.floorTo ticksPerDay).ticks + m.zone.gap (m.reading.floorTo ticksPerDay)
      else (m.reading.floorTo ticksPerDay).ticks - m.zone.gap (m.reading.floorTo ticksPerDay)⟩,
      false⟩ := by
  rw [startOfDay, withReading, at_local_of_skips skipped]

theorem eq_read_at_of_add_elapsed (added : m.addElapsed 0 = .ok s) :
    s = readAt m.zone m.instant := by
  rw [add_elapsed_eq, Int.add_zero] at added
  split at added
  · cases added
    rfl
  · cases added

theorem add_day_bounds (regular : m.zone.Regular) (here : m.zone.Displays m.reading) {days : Int}
    (added : m.add .day days = .ok s) :
    m.reading.ticks + days * ticksPerDay ≤ s.reading.ticks ∧
      s.reading.ticks < m.reading.ticks + days * ticksPerDay + 43200 * ticksPerSecond := by
  rw [add] at added
  split at added
  · rename_i none
    rw [eq_read_at_of_add_elapsed added, read_at_instant regular here, none]
    simp only [ticksPerSecond]
    omega
  · simp only [addDays] at added
    split at added
    · cases added
      by_cases skipped : m.zone.Skips ⟨m.reading.ticks + days * ticksPerDay⟩
      · have positive := skipped.gap_pos
        have short := regular.gap_lt ⟨m.reading.ticks + days * ticksPerDay⟩
        rw [at_local_of_skips skipped]
        simp only [if_true]
        omega
      · rw [at_local_of_displays regular ((regular.displays_iff _).mpr skipped)]
        simp only [ticksPerSecond]
        omega
    · cases added

section SkippedMidnights

variable (regular : m.zone.Regular) (begins : Begins .week weekStart m.reading b)

include regular begins

theorem start_of_week_lt (today : m.reading.floorTo ticksPerDay = b) (skipped : m.zone.Skips b)
    (first : m.fold = false) (started : m.startOf .week weekStart = .ok s) :
    s.reading.ticks < b.ticks := by
  have gap := skipped.gap_pos
  have short := regular.gap_lt b
  have opened := week_of_begins begins
  have floor := ticks_floor_to ticksPerDay m.reading
  have shown := displays_start_of_day regular
  have day : m.startOfDay = ⟨m.zone, ⟨b.ticks - m.zone.gap b⟩, false⟩ := by
    rw [start_of_day_of_skips (today ▸ skipped), today, first]
    rfl
  rw [day] at shown
  rw [start_of_week, day] at started
  obtain ⟨-, high⟩ :=
    add_day_bounds (m := ⟨m.zone, ⟨b.ticks - m.zone.gap b⟩, false⟩) regular shown started
  rw [today] at floor
  simp only [LocalTime.dayNumber, ticks_per_day_eq, ticksPerSecond] at *
  omega

theorem start_of_week_of_fold (today : m.reading.floorTo ticksPerDay = b) (skipped : m.zone.Skips b)
    (second : m.fold = true) (started : m.startOf .week weekStart = .ok s) :
    s = ⟨m.zone, ⟨b.ticks + m.zone.gap b⟩, false⟩ := by
  have gap := skipped.gap_pos
  have short := regular.gap_lt b
  have opened := week_of_begins begins
  have floor := ticks_floor_to ticksPerDay m.reading
  have day : m.startOfDay = ⟨m.zone, ⟨b.ticks + m.zone.gap b⟩, false⟩ := by
    rw [start_of_day_of_skips (today ▸ skipped), today, second]
    rfl
  have shown := displays_start_of_day regular
  have still : -((m.startOfDay.reading.dayNumber - weekStart) % 7) = 0 := by
    rw [day]
    simp only [LocalTime.dayNumber, ticks_per_day_eq, ticksPerSecond] at *
    omega
  rw [start_of_week, still, add, if_pos rfl, day] at started
  rw [day] at shown
  rw [eq_read_at_of_add_elapsed started]
  exact read_at_instant_of_first (by exact regular) shown rfl

theorem not_truncates_to_of_gap (skipped : m.zone.Skips b) :
    ¬ m.TruncatesTo .week weekStart ⟨m.zone, ⟨b.ticks + m.zone.gap b⟩, false⟩ := by
  intro truncates
  have gap := skipped.gap_pos
  have short := regular.gap_lt b
  have opened := week_of_begins begins
  have today : (LocalTime.mk (b.ticks + m.zone.gap b)).floorTo ticksPerDay = b := by
    apply congrArg LocalTime.mk
    simp only [ticks_per_day_eq, ticksPerSecond] at *
    omega
  obtain ⟨r, again, same⟩ := truncates.again
  have before := start_of_week_lt (m := ⟨m.zone, ⟨b.ticks + m.zone.gap b⟩, false⟩) regular
    (begins.of_same truncates.opens.same) today skipped rfl again
  have reading := congrArg LocalTime.ticks same.reading
  simp only at reading
  omega

theorem start_of_week_of_later (later : m.reading.floorTo ticksPerDay ≠ b)
    (skipped : m.zone.Skips b)
    (started : m.startOf .week weekStart = .ok s) :
    s = ⟨m.zone, ⟨b.ticks + m.zone.gap b⟩, false⟩ := by
  have opened := week_of_begins begins
  have floor := ticks_floor_to ticksPerDay m.reading
  have apart : b.ticks ≠ (m.reading.floorTo ticksPerDay).ticks := fun same =>
    later (congrArg LocalTime.mk same.symm)
  -- the clock is not put forward twice in a week
  have midnight : m.zone.Displays (m.reading.floorTo ticksPerDay) := by
    rw [regular.displays_iff]
    intro other
    have week := week_lt_of_skips regular skipped other (by
      simp only [LocalTime.dayNumber, ticks_per_day_eq] at *
      omega)
    simp only [LocalTime.dayNumber, ticks_per_day_eq] at *
    omega
  have counted : LocalTime.mk ((m.reading.floorTo ticksPerDay).ticks +
      -((m.reading.dayNumber - weekStart) % 7) * ticksPerDay) = b := by
    apply congrArg LocalTime.mk
    simp only [LocalTime.dayNumber, ticks_per_day_eq] at *
    omega
  have back : ¬ -((m.reading.dayNumber - weekStart) % 7) = 0 := fun none =>
    later (by rwa [none, Int.zero_mul, Int.add_zero] at counted)
  rw [start_of_week_eq regular midnight, add, if_neg back] at started
  simp only [addDays, counted, at_local_of_skips skipped, if_true] at started
  split at started
  · cases started
    rfl
  · cases started

/-- Where the start of the week is skipped, truncation comes to the moment after the gap or goes
back past it. -/
theorem start_of_week_of_skips (skipped : m.zone.Skips b)
    (started : m.startOf .week weekStart = .ok s) (inside : b.ticks ≤ s.reading.ticks) :
    s = ⟨m.zone, ⟨b.ticks + m.zone.gap b⟩, false⟩ := by
  by_cases today : m.reading.floorTo ticksPerDay = b
  · by_cases second : m.fold = true
    · exact start_of_week_of_fold regular begins today skipped second started
    · have before := start_of_week_lt regular begins today skipped (by simpa using second) started
      exact absurd inside (not_le.mpr before)
  · exact start_of_week_of_later regular begins today skipped started

theorem lt_start_of_week (shown : m.zone.Displays b)
    (skipped : m.zone.Skips (m.reading.floorTo ticksPerDay))
    (started : m.startOf .week weekStart = .ok s) : b.ticks < s.reading.ticks := by
  have gap := skipped.gap_pos
  have short := regular.gap_lt (m.reading.floorTo ticksPerDay)
  have opened := week_of_begins begins
  have floor := ticks_floor_to ticksPerDay m.reading
  have later : b.ticks ≠ (m.reading.floorTo ticksPerDay).ticks := fun same =>
    (regular.displays_iff b).mp shown (by rwa [show b = _ from congrArg LocalTime.mk same])
  have displayed := displays_start_of_day regular
  have day := start_of_day_of_skips skipped
  rw [day] at displayed
  rw [start_of_week, day] at started
  have bounds := (add_day_bounds (by exact regular) displayed started).1
  simp only [LocalTime.dayNumber, ticks_per_day_eq, ticksPerSecond] at *
  split_ifs at * <;> omega

theorem displays_of_truncates_to (started : m.startOf .week weekStart = .ok s)
    (truncates : m.TruncatesTo .week weekStart s) :
    m.zone.Displays b ∧ m.zone.Displays (m.reading.floorTo ticksPerDay) := by
  have shown : m.zone.Displays b := by
    rw [regular.displays_iff]
    intro skipped
    have least := begins.least _ truncates.opens.same
    rw [start_of_week_of_skips regular begins skipped started least] at truncates
    exact not_truncates_to_of_gap regular begins skipped truncates
  refine ⟨shown, (regular.displays_iff _).mpr fun skipped => ?_⟩
  have after := lt_start_of_week regular begins shown skipped started
  have first := truncates.opens.first b begins.same shown
  omega

end SkippedMidnights

/-- Truncation of a moment that the clock shows truncates exactly if the clock shows the reading
that starts the bucket, else it comes to a reading on either side of the gap. It truncates to a week
of the calendar exactly if the clock also shows midnight of the day. -/
theorem start_of_truncates (grain : Grain) (weekStart : Int) (m : Moment) (b : LocalTime)
    (regular : m.zone.Regular) (real : m.zone.Displays m.reading)
    (begins : Begins grain weekStart m.reading b) :
    (grain ≠ .week → ∃ s, m.startOf grain weekStart = .ok s ∧
      (m.TruncatesTo grain weekStart s ↔ m.zone.Displays b) ∧
      (¬ m.zone.Displays b → s.reading.ticks =
        if m.fold then b.ticks + m.zone.gap b else b.ticks - m.zone.gap b)) ∧
    (grain = .week → Reaches m.zone b →
      ((∃ s, m.startOf .week weekStart = .ok s ∧ m.TruncatesTo .week weekStart s) ↔
        m.zone.Displays b ∧ m.zone.Displays (m.reading.floorTo ticksPerDay))) := by
  constructor
  · intro short
    by_cases shown : m.zone.Displays b
    · obtain ⟨s, started, truncates⟩ := start_of_truncates_to regular real begins shown short
      exact ⟨s, started, ⟨fun _ => shown, fun _ => truncates⟩, fun skipped => absurd shown skipped⟩
    · have skipped : m.zone.Skips b := by
        rwa [regular.displays_iff, not_not] at shown
      have started := start_of_of_skips begins skipped short
      refine ⟨_, started, ⟨fun truncates => ?_, fun other => absurd other shown⟩, fun _ => rfl⟩
      exact absurd truncates (not_truncates_to_of_skips begins skipped short started)
  · rintro rfl reaches
    constructor
    · rintro ⟨s, started, truncates⟩
      exact displays_of_truncates_to regular begins started truncates
    · rintro ⟨shown, midnight⟩
      exact start_of_week_truncates_to regular real begins shown midnight reaches

/-- Noon of a Wednesday truncates to the Monday after the clock was put forward. -/
theorem beirut_truncates_week : (beirut 4 3 12).zone.Regular ∧
    (beirut 4 3 12).zone.Displays (beirut 4 3 12).reading ∧
    Begins .week 0 (beirut 4 3 12).reading (beirut 4 1 0).reading ∧
    (beirut 4 3 12).zone.Displays (beirut 4 1 0).reading ∧
    (beirut 4 3 12).zone.Displays (beirut 4 3 0).reading ∧
    Reaches (beirut 4 3 12).zone (beirut 4 1 0).reading ∧
    ∃ s, (beirut 4 3 12).startOf .week 0 = .ok s ∧ (beirut 4 3 12).TruncatesTo .week 0 s := by
  have regular : (beirut 4 3 12).zone.Regular := Zone.beirut_regular
  have real : (beirut 4 3 12).zone.Displays (beirut 4 3 12).reading :=
    (regular.displays_iff _).mpr (by decide +kernel)
  have begins : Begins .week 0 (beirut 4 3 12).reading (beirut 4 1 0).reading :=
    (show bucketStart .week 0 (beirut 4 3 12).reading = (beirut 4 1 0).reading by decide +kernel) ▸
      begins_bucket_start .week 0 (beirut 4 3 12).reading
  have shown : (beirut 4 3 12).zone.Displays (beirut 4 1 0).reading :=
    (regular.displays_iff _).mpr (by decide +kernel)
  have midnight : (beirut 4 3 12).zone.Displays (beirut 4 3 0).reading :=
    (regular.displays_iff _).mpr (by decide +kernel)
  have reaches : Reaches (beirut 4 3 12).zone (beirut 4 1 0).reading := by
    constructor
    · decide +kernel
    · decide +kernel
  exact ⟨regular, real, begins, shown, midnight, reaches,
    ((start_of_truncates .week 0 _ _ regular real begins).2 rfl reaches).mpr
      ⟨shown, (show (beirut 4 3 12).reading.floorTo ticksPerDay = (beirut 4 3 0).reading by
        decide +kernel) ▸ midnight⟩⟩

/-- On the day on which the clock is put forward at midnight, noon goes back to the day before, and
further back again. -/
theorem beirut_start_of_day : (beirut 3 31 12).zone.Regular ∧
    (beirut 3 31 12).zone.Displays (beirut 3 31 12).reading ∧
    (beirut 3 31 12).startOf .day 0 = .ok (beirut 3 30 23) ∧
    ¬ SameBucket .day 0 (beirut 3 31 12).reading (beirut 3 30 23).reading ∧
    (beirut 3 30 23).startOf .day 0 = .ok (beirut 3 30 0) := by
  have regular : (beirut 3 31 12).zone.Regular := Zone.beirut_regular
  refine ⟨regular, (regular.displays_iff _).mpr (by decide +kernel), ?_, ?_, ?_⟩
  · exact ok_of_to_option (by decide +kernel)
  · change ¬ (_ : Int) = _
    decide +kernel
  · exact ok_of_to_option (by decide +kernel)

end Moment

end Reckon

import Reckon.Proofs.Clock.ZoneRules
import Reckon.Proofs.Clock.Zones

/-!
# Truncation to a grain

The readings of a grain fall into buckets. Where the clock shows the reading that starts the bucket
of a moment, truncation comes to it: not after the moment, at the first reading of the bucket that
the clock shows, and again to the same moment. Where the clock skips it, truncation comes to a
reading on either side of the gap, and truncating again moves it.
-/

set_option autoImplicit false

namespace Reckon

open LocalTime Sequencing

namespace LocalTime

/-- Two readings in one second, minute, hour, day, month or year, or in one week that begins on
`weekStart`. -/
def SameBucket (grain : Grain) (weekStart : Int) (t u : LocalTime) : Prop :=
  match grain with
  | .second => t.ticks / ticksPerSecond = u.ticks / ticksPerSecond
  | .minute => t.ticks / ticksPerMinute = u.ticks / ticksPerMinute
  | .hour => t.ticks / ticksPerHour = u.ticks / ticksPerHour
  | .day => t.dayNumber = u.dayNumber
  | .week => (t.dayNumber - weekStart) / 7 = (u.dayNumber - weekStart) / 7
  | .month => t.date.year = u.date.year ∧ t.date.month = u.date.month
  | .year => t.date.year = u.date.year

/-- The first reading of the bucket of another. -/
structure Begins (grain : Grain) (weekStart : Int) (t b : LocalTime) : Prop where
  same : SameBucket grain weekStart t b
  least : ∀ u, SameBucket grain weekStart t u → b.ticks ≤ u.ticks

/-- The reading that starts the bucket, counted from a reading in it. -/
def bucketStart (grain : Grain) (weekStart : Int) (t : LocalTime) : LocalTime :=
  match grain with
  | .second => t.floorTo ticksPerSecond
  | .minute => t.floorTo ticksPerMinute
  | .hour => t.floorTo ticksPerHour
  | .day => t.floorTo ticksPerDay
  | .week => ⟨(t.dayNumber - (t.dayNumber - weekStart) % 7) * ticksPerDay⟩
  | .month => midnight ⟨t.date.year, t.date.month, 1⟩
  | .year => midnight ⟨t.date.year, 1, 1⟩

variable {grain : Grain} {weekStart : Int} {t u b : LocalTime}

theorem SameBucket.trans (same : SameBucket grain weekStart t u)
    (other : SameBucket grain weekStart t b) : SameBucket grain weekStart u b := by
  cases grain with
  | month => exact ⟨same.1.symm.trans other.1, same.2.symm.trans other.2⟩
  | second | minute | hour | day | week | year => exact Eq.trans (Eq.symm same) other

theorem same_bucket_refl (grain : Grain) (weekStart : Int) (t : LocalTime) :
    SameBucket grain weekStart t t := by
  cases grain with
  | month => exact ⟨rfl, rfl⟩
  | second | minute | hour | day | week | year => exact rfl

theorem Begins.eq (begins : Begins grain weekStart t u) (other : Begins grain weekStart t b) :
    u = b := by
  have least := begins.least b other.same
  have most := other.least u begins.same
  cases u
  cases b
  exact congrArg LocalTime.mk (le_antisymm least most)

/-- The first reading of a bucket is the first of the bucket of any reading in it. -/
theorem Begins.of_same (begins : Begins grain weekStart t b)
    (same : SameBucket grain weekStart t u) : Begins grain weekStart u b :=
  ⟨same.trans begins.same, fun v inside =>
    begins.least v ((same.trans (same_bucket_refl grain weekStart t)).trans inside)⟩

theorem ticks_floor_to (unit : Int) (t : LocalTime) :
    (t.floorTo unit).ticks = unit * (t.ticks / unit) := by
  have whole := Int.mul_ediv_add_emod t.ticks unit
  simp only [floorTo]
  omega

theorem floor_to_div {unit : Int} (pos : 0 < unit) (t : LocalTime) :
    t.ticks / unit = (t.floorTo unit).ticks / unit := by
  rw [ticks_floor_to, Int.mul_ediv_cancel_left _ (ne_of_gt pos)]

theorem floor_to_le {unit : Int} (pos : 0 < unit) (same : t.ticks / unit = u.ticks / unit) :
    (t.floorTo unit).ticks ≤ u.ticks := by
  rw [ticks_floor_to, same]
  exact Int.mul_ediv_self_le (ne_of_gt pos)

theorem date_midnight {d : Date} (proper : d.Proper) : (midnight d).date = d := by
  rw [date, dayNumber, midnight, Int.mul_ediv_cancel _ (by decide)]
  exact proper.of_day_number_day_number

theorem midnight_le_iff {d : Date} :
    (midnight d).ticks ≤ t.ticks ↔ d.dayNumber ≤ t.date.dayNumber := by
  rw [date, Date.day_number_of_day_number, dayNumber, midnight]
  simp only [ticks_per_day_eq]
  omega

theorem proper_date (t : LocalTime) : t.date.Proper :=
  Date.of_day_number_proper t.dayNumber

theorem begins_bucket_start (grain : Grain) (weekStart : Int) (t : LocalTime) :
    Begins grain weekStart t (bucketStart grain weekStart t) := by
  cases grain with
  | second =>
      exact ⟨floor_to_div (by decide) t, fun u same => floor_to_le (by decide) same⟩
  | minute =>
      exact ⟨floor_to_div (by decide) t, fun u same => floor_to_le (by decide) same⟩
  | hour =>
      exact ⟨floor_to_div (by decide) t, fun u same => floor_to_le (by decide) same⟩
  | day =>
      exact ⟨floor_to_div (by decide) t, fun u same => floor_to_le (by decide) same⟩
  | week =>
      constructor
      · simp only [SameBucket, bucketStart, dayNumber, ticks_per_day_eq]
        omega
      · intro u same
        simp only [SameBucket, bucketStart, dayNumber, ticks_per_day_eq] at *
        omega
  | month =>
      have proper := proper_date t
      have first : Date.Proper ⟨t.date.year, t.date.month, 1⟩ :=
        ⟨proper.month, le_rfl, le_trans proper.day.1 proper.day.2⟩
      constructor
      · rw [SameBucket, bucketStart, date_midnight first]
        exact ⟨rfl, rfl⟩
      · intro u same
        obtain ⟨year, month⟩ := same
        refine midnight_le_iff.mpr (not_lt.mp ?_)
        rw [(proper_date u).day_number_lt_iff first]
        have := (proper_date u).day
        simp only
        omega
  | year =>
      have first : Date.Proper ⟨t.date.year, 1, 1⟩ :=
          ⟨by simp, le_rfl, by change (1 : Int) ≤ 31; decide⟩
      constructor
      · rw [SameBucket, bucketStart, date_midnight first]
      · intro u same
        have year : t.date.year = u.date.year := same
        refine midnight_le_iff.mpr (not_lt.mp ?_)
        rw [(proper_date u).day_number_lt_iff first]
        have := (proper_date u).month
        have := (proper_date u).day
        simp only
        omega

end LocalTime

namespace Moment

open LocalTime Zone

variable {grain : Grain} {weekStart : Int} {m s : Moment} {b : LocalTime}

/-- A reading is the first of a bucket that the clock shows. -/
structure Opens (z : Zone) (grain : Grain) (weekStart : Int) (t s : LocalTime) : Prop where
  same : SameBucket grain weekStart t s
  displayed : z.Displays s
  first : ∀ u, SameBucket grain weekStart t u → z.Displays u → s.ticks ≤ u.ticks

/-- Two moments of one zone with one reading at one instant. -/
structure Same (a b : Moment) : Prop where
  zone : a.zone = b.zone
  reading : a.reading = b.reading
  instant : a.instant = b.instant

/-- What truncation promises: a moment not after the given one, by the clock and by UTC, that opens
its bucket and that truncation leaves as it is. -/
structure TruncatesTo (grain : Grain) (weekStart : Int) (m s : Moment) : Prop where
  zone : s.zone = m.zone
  notAfter : m.isBefore s = false ∧ s.instant ≤ m.instant
  opens : Opens m.zone grain weekStart m.reading s.reading
  again : ∃ r, s.startOf grain weekStart = .ok r ∧ r.Same s

/-- A reading, and the instants it is counted to, can be represented. -/
def Reaches (z : Zone) (t : LocalTime) : Prop :=
  t.isRepresentable = true ∧
    ∀ fold, (LocalTime.mk (instantUnder (z.offsetOf t fold) t)).isRepresentable = true

theorem start_of_eq (m : Moment) (grain : Grain) (weekStart : Int) (short : grain ≠ .week) :
    m.startOf grain weekStart = .ok (m.withReading (bucketStart grain weekStart m.reading)) := by
  cases grain with
  | week => exact absurd rfl short
  | second | minute | hour | day | month | year => rfl

theorem truncates_to_of_reading (begins : Begins grain weekStart m.reading b)
    (shown : m.zone.Displays b) (zone : s.zone = m.zone) (reading : s.reading = b)
    (instant : s.instant ≤ m.instant)
    (again : ∃ r, s.startOf grain weekStart = .ok r ∧ r.Same s) :
    m.TruncatesTo grain weekStart s := by
  subst reading
  have least := begins.least m.reading (same_bucket_refl grain weekStart m.reading)
  refine ⟨zone, ⟨decide_eq_false (not_lt.mpr least), instant⟩, ?_, again⟩
  exact ⟨begins.same, shown, fun u same _ => begins.least u same⟩

theorem start_of_of_displays (regular : m.zone.Regular)
    (begins : Begins grain weekStart m.reading b) (shown : m.zone.Displays b)
    (short : grain ≠ .week) : m.startOf grain weekStart = .ok ⟨m.zone, b, m.fold⟩ := by
  rw [start_of_eq m grain weekStart short,
    (begins_bucket_start grain weekStart m.reading).eq begins, withReading,
    at_local_of_displays regular shown]

/-- Truncation to another grain than the week, where the clock shows the reading that starts the
bucket. -/
theorem start_of_truncates_to (regular : m.zone.Regular) (real : m.zone.Displays m.reading)
    (begins : Begins grain weekStart m.reading b) (shown : m.zone.Displays b)
    (short : grain ≠ .week) :
    ∃ s, m.startOf grain weekStart = .ok s ∧ m.TruncatesTo grain weekStart s := by
  refine ⟨_, start_of_of_displays regular begins shown short, ?_⟩
  have least := begins.least m.reading (same_bucket_refl grain weekStart m.reading)
  refine truncates_to_of_reading begins shown rfl rfl
    (regular.instant_under_le shown real least m.fold) ⟨_, ?_, ⟨rfl, rfl, rfl⟩⟩
  exact start_of_of_displays regular (begins.of_same begins.same) shown short

/-- Where the clock skips the reading that starts the bucket, truncation comes to a reading on the
side of the gap that the fold picks. -/
theorem start_of_of_skips (begins : Begins grain weekStart m.reading b) (skipped : m.zone.Skips b)
    (short : grain ≠ .week) : m.startOf grain weekStart = .ok ⟨m.zone,
      ⟨if m.fold then b.ticks + m.zone.gap b else b.ticks - m.zone.gap b⟩, false⟩ := by
  rw [start_of_eq m grain weekStart short,
    (begins_bucket_start grain weekStart m.reading).eq begins, withReading,
    at_local_of_skips skipped]

theorem not_truncates_to_of_skips (begins : Begins grain weekStart m.reading b)
    (skipped : m.zone.Skips b) (short : grain ≠ .week)
    (started : m.startOf grain weekStart = .ok s) :
    ¬ m.TruncatesTo grain weekStart s := by
  rw [start_of_of_skips begins skipped short] at started
  cases started
  intro truncates
  have gap := skipped.gap_pos
  have least := begins.least _ truncates.opens.same
  -- so the reading is after the gap; without the fold it is then moved before it
  have after : m.fold = true := by
    by_contra without
    simp only [without, if_false] at least
    omega
  obtain ⟨r, again, same⟩ := truncates.again
  rw [start_of_of_skips (begins.of_same truncates.opens.same) skipped short] at again
  cases again
  have reading := congrArg LocalTime.ticks same.reading
  simp only [after, if_true, Bool.false_eq_true, if_false] at reading
  omega

end Moment

end Reckon

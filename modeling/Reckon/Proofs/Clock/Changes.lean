import Reckon.Proofs.Calendar.DayNumbers
import Reckon.Clock.Moment

/-!
# Changes of the clock

A zone is regular if its offsets are close together and its clock is changed at most once in nine
days. Around a change the readings fall into those that the clock shows once, those that it repeats
and those that it skips; a reading is skipped exactly if no instant has it, and an instant is found
again from its reading.
-/

set_option autoImplicit false

namespace Reckon

open LocalTime

namespace LocalTime

theorem ticks_per_day_eq : ticksPerDay = 86400000000 := rfl

end LocalTime

namespace Zone

/-- The clock shows a reading at some instant. -/
def Displays (z : Zone) (t : LocalTime) : Prop :=
  ∃ instant, (Moment.readAt z instant).reading = t

/-- The clock is put forward over a reading. -/
def Skips (z : Zone) (t : LocalTime) : Prop :=
  z.offsetOf t false < z.offsetOf t true

/-- The length of the gap in which a reading lies, if the clock skips it. -/
def gap (z : Zone) (t : LocalTime) : Int :=
  (z.offsetOf t true - z.offsetOf t false) * ticksPerSecond

theorem Skips.gap_pos {z : Zone} {t : LocalTime} (skipped : z.Skips t) : 0 < z.gap t :=
  Int.mul_pos (Int.sub_pos.mpr skipped) (by decide)

instance (z : Zone) (t : LocalTime) : Decidable (z.Skips t) :=
  inferInstanceAs (Decidable (_ < _))

/-- The offsets of a zone are less than a day long and less than half a day apart, and in nine days
they change at most once. -/
structure Regular (z : Zone) : Prop where
  short : ∀ i, -86400 < z.offsetAt i ∧ z.offsetAt i < 86400
  near : ∀ i j, z.offsetAt i < z.offsetAt j + 43200
  lone : ∀ i, ∃ change, ∀ j, i ≤ j → j ≤ i + 9 * ticksPerDay →
    z.offsetAt j = if j < change then z.offsetAt i else z.offsetAt (i + 9 * ticksPerDay)

/-- The offsets of nine days, before and after an instant. -/
structure Around (z : Zone) (opening change before after : Int) : Prop where
  regular : z.Regular
  offsets : ∀ j, opening ≤ j → j ≤ opening + 9 * ticksPerDay →
    z.offsetAt j = if j < change then before else after
  beforeShort : -86400 < before ∧ before < 86400
  afterShort : -86400 < after ∧ after < 86400
  near : after < before + 43200 ∧ before < after + 43200

theorem Regular.around {z : Zone} (regular : z.Regular) (opening : Int) :
    ∃ change before after, z.Around opening change before after := by
  obtain ⟨change, offsets⟩ := regular.lone opening
  exact ⟨change, _, _, regular, offsets, regular.short _, regular.short _, regular.near _ _,
    regular.near _ _⟩

namespace Around

variable {z : Zone} {opening change before after : Int} {t : LocalTime}

def Inside (opening : Int) (t : LocalTime) : Prop :=
  opening + ticksPerDay ≤ t.ticks ∧ t.ticks ≤ opening + 8 * ticksPerDay

theorem shows_before (around : z.Around opening change before after) (inside : Inside opening t) :
    z.shows before t = decide (t.ticks - before * ticksPerSecond < change ∨ before = after) := by
  obtain ⟨-, offsets, ⟨low, high⟩, -, -⟩ := around
  obtain ⟨first, last⟩ := inside
  simp only [ticks_per_day_eq] at offsets first last
  rw [shows, instantUnder, ticksPerSecond, offsets _ (by omega) (by omega)]
  by_cases early : t.ticks - before * 1000000 < change
  · simp [early]
  · simp [early, eq_comm, beq_eq_decide]

theorem shows_after (around : z.Around opening change before after) (inside : Inside opening t) :
    z.shows after t = decide (change ≤ t.ticks - after * ticksPerSecond ∨ before = after) := by
  obtain ⟨-, offsets, -, ⟨low, high⟩, -⟩ := around
  obtain ⟨first, last⟩ := inside
  simp only [ticks_per_day_eq] at offsets first last
  rw [shows, instantUnder, ticksPerSecond, offsets _ (by omega) (by omega)]
  by_cases early : t.ticks - after * 1000000 < change
  · simp [early, not_le.mpr early, beq_eq_decide]
  · simp [early, not_lt.mp early]

/-- A reading that one offset shows has that offset, any other the one that its fold picks. -/
theorem offset_of_eq (around : z.Around opening change before after) (inside : Inside opening t)
    (fold : Bool) : z.offsetOf t fold =
      if t.ticks - before * ticksPerSecond < change ↔ t.ticks - after * ticksPerSecond < change then
        if t.ticks - before * ticksPerSecond < change then before else after
      else if fold then after else before := by
  have early := shows_before around inside
  have late := shows_after around inside
  obtain ⟨-, offsets, ⟨low, high⟩, ⟨lowAfter, highAfter⟩, -⟩ := around
  obtain ⟨first, last⟩ := inside
  simp only [ticks_per_day_eq, ticksPerSecond] at *
  rw [offsetOf]
  simp only [ticks_per_day_eq]
  rw [offsets (t.ticks - 86400000000) (by omega) (by omega),
    offsets (t.ticks + 86400000000) (by omega) (by omega)]
  by_cases same : before = after
  · subst same
    by_cases shown : t.ticks - before * 1000000 < change
    · simp [shown]
    · simp [shown]
  · simp only [same, or_false] at early late
    by_cases passed : change ≤ t.ticks - 86400000000
    · have shownBefore : ¬ t.ticks - before * 1000000 < change := by omega
      have shownAfter : ¬ t.ticks - after * 1000000 < change := by omega
      rw [if_neg (by omega), if_neg (by omega), late]
      simp [shownBefore, shownAfter]
    · by_cases ahead : t.ticks + 86400000000 < change
      · have shownBefore : t.ticks - before * 1000000 < change := by omega
        have shownAfter : t.ticks - after * 1000000 < change := by omega
        rw [if_pos (by omega), if_pos ahead, early]
        simp [shownBefore, shownAfter]
      · rw [if_pos (by omega), if_neg ahead, early, late]
        by_cases shownBefore : t.ticks - before * 1000000 < change
        · by_cases shownAfter : t.ticks - after * 1000000 < change
          · simp [shownBefore, shownAfter, not_le.mpr shownAfter]
          · simp [shownBefore, shownAfter, not_lt.mp shownAfter]
        · by_cases shownAfter : t.ticks - after * 1000000 < change
          · simp [shownBefore, shownAfter, not_le.mpr shownAfter]
          · simp [shownBefore, shownAfter, not_lt.mp shownAfter]

theorem skips_iff (around : z.Around opening change before after) (inside : Inside opening t) :
    z.Skips t ↔ change ≤ t.ticks - before * ticksPerSecond ∧
      t.ticks - after * ticksPerSecond < change := by
  rw [Skips, offset_of_eq around inside, offset_of_eq around inside]
  simp only [ticksPerSecond, Bool.false_eq_true, if_false, if_true]
  split
  · omega
  · omega

theorem displays_iff (around : z.Around opening change before after) (inside : Inside opening t) :
    z.Displays t ↔ t.ticks - before * ticksPerSecond < change ∨
      change ≤ t.ticks - after * ticksPerSecond := by
  obtain ⟨regular, offsets, ⟨low, high⟩, ⟨lowAfter, highAfter⟩, -⟩ := around
  obtain ⟨first, last⟩ := inside
  simp only [ticks_per_day_eq, ticksPerSecond] at *
  constructor
  · rintro ⟨instant, rfl⟩
    obtain ⟨low, high⟩ := regular.short instant
    simp only [Moment.readAt, ticksPerSecond] at *
    have offset := offsets instant (by omega) (by omega)
    by_cases early : instant < change
    · rw [if_pos early] at offset
      left
      omega
    · rw [if_neg early] at offset
      right
      omega
  · rintro (early | late)
    · refine ⟨t.ticks - before * 1000000, ?_⟩
      simp only [Moment.readAt, ticksPerSecond]
      rw [offsets _ (by omega) (by omega), if_pos early, Int.sub_add_cancel]
    · refine ⟨t.ticks - after * 1000000, ?_⟩
      simp only [Moment.readAt, ticksPerSecond]
      rw [offsets _ (by omega) (by omega), if_neg (not_lt.mpr late), Int.sub_add_cancel]

/-- A reading that the clock skips has the offset before the change, and under the fold that after
it. -/
theorem offset_of_of_skips (around : z.Around opening change before after)
    (inside : Inside opening t) (skipped : z.Skips t) :
    z.offsetOf t false = before ∧ z.offsetOf t true = after := by
  obtain ⟨late, early⟩ := (skips_iff around inside).mp skipped
  rw [offset_of_eq around inside, offset_of_eq around inside]
  simp [not_lt.mpr late, early]

/-- The offset of a reading that the clock shows is that of the instant it is counted to. -/
theorem offset_at_instant_under (around : z.Around opening change before after)
    (inside : Inside opening t) (displayed : z.Displays t) (fold : Bool) :
    z.offsetAt (instantUnder (z.offsetOf t fold) t) = z.offsetOf t fold := by
  have shown := (displays_iff around inside).mp displayed
  have offset := offset_of_eq around inside fold
  obtain ⟨-, offsets, ⟨low, high⟩, ⟨lowAfter, highAfter⟩, -⟩ := around
  obtain ⟨first, last⟩ := inside
  simp only [instantUnder, ticks_per_day_eq, ticksPerSecond] at *
  -- either offset is the right one at the instant that it gives
  have pick : z.offsetOf t fold = before ∧ t.ticks - before * 1000000 < change ∨
      z.offsetOf t fold = after ∧ change ≤ t.ticks - after * 1000000 := by
    rw [offset]
    cases fold
    · simp only [Bool.false_eq_true, if_false]
      split_ifs <;> omega
    · simp only [if_true]
      split_ifs <;> omega
  rcases pick with ⟨same, early⟩ | ⟨same, late⟩
  · rw [same, offsets _ (by omega) (by omega), if_pos early]
  · rw [same, offsets _ (by omega) (by omega), if_neg (not_lt.mpr late)]

theorem offset_of_read_at (around : z.Around opening change before after) {instant : Int}
    (inside : Inside opening (Moment.readAt z instant).reading)
    (second : z.offsetOf (Moment.readAt z instant).reading false ≠ z.offsetAt instant) :
    z.offsetOf (Moment.readAt z instant).reading true = z.offsetAt instant := by
  have fromFirst := offset_of_eq around inside false
  have fromSecond := offset_of_eq around inside true
  obtain ⟨regular, offsets, -, -, -⟩ := around
  obtain ⟨first, last⟩ := inside
  obtain ⟨low, high⟩ := regular.short instant
  simp only [Moment.readAt, ticks_per_day_eq, ticksPerSecond] at *
  have offset := offsets instant (by omega) (by omega)
  rw [fromSecond]
  rw [fromFirst] at second
  simp only [Bool.false_eq_true, if_false, if_true] at *
  split_ifs at * <;> omega

end Around

variable {z : Zone}

/-- The day before a reading and the day after it are well inside some nine days. -/
theorem Regular.around_days (regular : z.Regular) (t : LocalTime) :
    ∃ opening change before after, z.Around opening change before after ∧
      ∀ u : LocalTime, t.ticks - ticksPerDay ≤ u.ticks → u.ticks ≤ t.ticks + ticksPerDay →
        Around.Inside opening u := by
  obtain ⟨change, before, after, around⟩ := regular.around (t.ticks - 2 * ticksPerDay)
  refine ⟨_, change, before, after, around, fun u low high => ?_⟩
  simp only [Around.Inside]
  omega

theorem Regular.around_reading (regular : z.Regular) (t : LocalTime) :
    ∃ opening change before after, z.Around opening change before after ∧
      Around.Inside opening t := by
  obtain ⟨opening, change, before, after, around, inside⟩ := regular.around_days t
  have day : 0 < ticksPerDay := by decide
  exact ⟨opening, change, before, after, around, inside t (by omega) (by omega)⟩

/-- The readings that no instant has are those that the clock is put forward over. -/
theorem Regular.displays_iff (regular : z.Regular) (t : LocalTime) :
    z.Displays t ↔ ¬ z.Skips t := by
  obtain ⟨_, _, _, _, around, inside⟩ := regular.around_reading t
  rw [around.displays_iff inside, around.skips_iff inside, not_and_or, not_le, not_lt]

theorem exists_offset_at (z : Zone) (t : LocalTime) (fold : Bool) :
    ∃ instant, z.offsetOf t fold = z.offsetAt instant := by
  unfold offsetOf
  simp only
  split
  · exact ⟨_, rfl⟩
  · exact ⟨_, rfl⟩
  · cases fold with
    | false => exact ⟨_, rfl⟩
    | true => exact ⟨_, rfl⟩

theorem Regular.offset_of_lt (regular : z.Regular) (t u : LocalTime) (fold other : Bool) :
    z.offsetOf t fold < z.offsetOf u other + 43200 := by
  obtain ⟨i, here⟩ := exists_offset_at z t fold
  obtain ⟨j, there⟩ := exists_offset_at z u other
  rw [here, there]
  exact regular.near i j

theorem Regular.gap_lt (regular : z.Regular) (t : LocalTime) :
    z.gap t < 43200 * ticksPerSecond := by
  have := regular.offset_of_lt t t true false
  simp only [gap, ticksPerSecond]
  omega

/-- Of two readings half a day apart, the later one is counted to a later instant. -/
theorem Regular.instant_under_le_of_apart (regular : z.Regular) {t u : LocalTime}
    (apart : t.ticks + 43200 * ticksPerSecond ≤ u.ticks) (fold other : Bool) :
    instantUnder (z.offsetOf t fold) t ≤ instantUnder (z.offsetOf u other) u := by
  have near := regular.offset_of_lt u t other fold
  simp only [instantUnder, ticksPerSecond] at *
  omega

/-- Of two readings that the clock shows, the later one is counted to a later instant under the same
fold. -/
theorem Regular.instant_under_le (regular : z.Regular) {t u : LocalTime} (shown : z.Displays t)
    (other : z.Displays u) (le : t.ticks ≤ u.ticks) (fold : Bool) :
    instantUnder (z.offsetOf t fold) t ≤ instantUnder (z.offsetOf u fold) u := by
  by_cases apart : t.ticks + 43200 * ticksPerSecond ≤ u.ticks
  · exact regular.instant_under_le_of_apart apart fold fold
  · obtain ⟨opening, change, before, after, around, inside⟩ := regular.around_days t
    simp only [ticks_per_day_eq, ticksPerSecond] at inside apart
    have here : Around.Inside opening t := inside t (by omega) (by omega)
    have there : Around.Inside opening u := inside u (by omega) (by omega)
    rw [around.displays_iff here] at shown
    rw [around.displays_iff there] at other
    rw [around.offset_of_eq here, around.offset_of_eq there]
    simp only [instantUnder, ticksPerSecond] at *
    cases fold
    · simp only [Bool.false_eq_true, if_false]
      split_ifs <;> omega
    · simp only [if_true]
      split_ifs <;> omega

end Zone

namespace Moment

open Zone

variable {z : Zone} {m : Moment}

theorem at_local_of_displays (regular : z.Regular) {t : LocalTime} (displayed : z.Displays t)
    (fold : Bool) : atLocal z t fold = ⟨z, t, fold⟩ := by
  have shown := (regular.displays_iff t).mp displayed
  rw [Skips] at shown
  simp only [atLocal, if_neg shown]

theorem at_local_of_skips {t : LocalTime} (skipped : z.Skips t) (fold : Bool) :
    atLocal z t fold =
      ⟨z, ⟨if fold then t.ticks + z.gap t else t.ticks - z.gap t⟩, false⟩ := by
  rw [Skips] at skipped
  simp only [atLocal, if_pos skipped, gap]

/-- A moment at a wall-clock reading always has a reading that the clock shows. -/
theorem displays_at_local (regular : z.Regular) (t : LocalTime) (fold : Bool) :
    z.Displays (atLocal z t fold).reading := by
  by_cases skipped : z.Skips t
  · have positive := skipped.gap_pos
    have short := regular.gap_lt t
    obtain ⟨opening, change, before, after, around, inside⟩ := regular.around_days t
    rw [ticks_per_day_eq] at inside
    have here : Around.Inside opening t := inside t (by omega) (by omega)
    have between := (around.skips_iff here).mp skipped
    obtain ⟨first, second⟩ := around.offset_of_of_skips here skipped
    have length : z.gap t = (after - before) * ticksPerSecond := by rw [gap, first, second]
    rw [length] at positive short
    rw [at_local_of_skips skipped, length]
    simp only [ticksPerSecond] at *
    cases fold with
    | false =>
        rw [around.displays_iff (inside _ (by simp; omega) (by simp; omega))]
        simp only [ticksPerSecond, Bool.false_eq_true, if_false]
        omega
    | true =>
        rw [around.displays_iff (inside _ (by simp; omega) (by simp; omega))]
        simp only [ticksPerSecond, if_true]
        omega
  · rw [at_local_of_displays regular ((regular.displays_iff t).mpr skipped)]
    exact (regular.displays_iff t).mpr skipped

/-- Counting to the instant of a reading and reading the clock there gives the reading. -/
theorem read_at_instant (regular : m.zone.Regular) (displayed : m.zone.Displays m.reading) :
    (readAt m.zone m.instant).reading = m.reading := by
  obtain ⟨_, _, _, _, around, inside⟩ := regular.around_reading m.reading
  have offset := around.offset_at_instant_under inside displayed m.fold
  simp only [readAt, instant, Moment.offset, offset]
  simp only [instantUnder, Int.sub_add_cancel]

theorem read_at_instant_of_first (regular : m.zone.Regular) (displayed : m.zone.Displays m.reading)
    (first : m.fold = false) : readAt m.zone m.instant = m := by
  obtain ⟨_, _, _, _, around, inside⟩ := regular.around_reading m.reading
  have offset := around.offset_at_instant_under inside displayed m.fold
  have reading := read_at_instant regular displayed
  have fold : (readAt m.zone m.instant).fold = m.fold := by
    change (m.zone.offsetAt m.instant !=
      m.zone.offsetOf (readAt m.zone m.instant).reading false) = m.fold
    rw [reading, instant, Moment.offset, offset, first, bne_self_eq_false]
  exact congrArg₂ (Moment.mk m.zone) reading fold

/-- Reading the clock at an instant and counting to the instant of the reading gives the
instant. -/
theorem instant_read_at (regular : z.Regular) (instant : Int) :
    (readAt z instant).instant = instant := by
  obtain ⟨_, _, _, _, around, inside⟩ := regular.around_reading (readAt z instant).reading
  have counted : (readAt z instant).offset = z.offsetAt instant := by
    change z.offsetOf (readAt z instant).reading
      (z.offsetAt instant != z.offsetOf (readAt z instant).reading false) = _
    by_cases first : z.offsetOf (readAt z instant).reading false = z.offsetAt instant
    · rw [first, bne_self_eq_false, first]
    · rw [bne_iff_ne.mpr (Ne.symm first)]
      exact around.offset_of_read_at inside first
  rw [Moment.instant, counted, instantUnder]
  exact Int.add_sub_cancel _ _

end Moment

end Reckon

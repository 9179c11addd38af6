import Reckon.Proofs.Clock.Midnights
import Reckon.Proofs.Clock.SteadyDays

/-!
# Readings that the clock shows once

What the clock reads before it shows such a reading is earlier, and what it reads from then on is
not. So among these readings the order of the clock is that of the instants.
-/

set_option autoImplicit false

namespace Reckon

open LocalTime

namespace Zone

variable {z : Zone} {t u : LocalTime}

def onceAt (z : Zone) (t : LocalTime) : Int :=
  instantUnder (z.offsetOf t false) t

theorem ShowsOnce.displays (once : z.ShowsOnce t) : z.Displays t :=
  ⟨z.onceAt t, Moment.read_at_of_shows_once once false⟩

/-- A reading that the clock shows once is on one side of a change, whichever offset it is counted
by. -/
theorem Around.side_of_shows_once {opening change before after : Int}
    (around : z.Around opening change before after) (inside : Around.Inside opening t)
    (once : z.ShowsOnce t) :
    z.offsetOf t false = before ∧ t.ticks - before * ticksPerSecond < change ∧
        t.ticks - after * ticksPerSecond < change ∨
      z.offsetOf t false = after ∧ change ≤ t.ticks - before * ticksPerSecond ∧
        change ≤ t.ticks - after * ticksPerSecond := by
  have first := around.offset_of_eq inside false
  have second := around.offset_of_eq inside true
  have alike := once.alike
  rw [first, second] at alike
  rw [first]
  simp only [ticksPerSecond, Bool.false_eq_true, if_false, if_true] at *
  split_ifs at * <;> omega

/-- Before the instant of a reading that it shows once the clock reads less, and from then on it
does not. -/
theorem Regular.reading_lt_iff (regular : z.Regular) (once : z.ShowsOnce t) (instant : Int) :
    (Moment.readAt z instant).reading.ticks < t.ticks ↔ instant < z.onceAt t := by
  obtain ⟨opening, change, before, after, around, days⟩ := regular.around_days t
  have day : 0 < ticksPerDay := by decide
  have inside := days t (by omega) (by omega)
  have low := (days ⟨t.ticks - ticksPerDay⟩ le_rfl (by simp only; omega)).1
  have high := (days ⟨t.ticks + ticksPerDay⟩ (by simp only; omega) le_rfl).2
  have side := around.side_of_shows_once inside once
  have short := regular.short instant
  have offsets := around.offsets instant
  have beforeShort := around.beforeShort
  have afterShort := around.afterShort
  simp only [Moment.readAt, onceAt, instantUnder, ticksPerSecond, ticks_per_day_eq] at *
  -- away from these days no offset brings a reading near
  by_cases near : opening ≤ instant ∧ instant ≤ opening + 9 * 86400000000
  · rw [offsets near.1 near.2]
    split
    · omega
    · omega
  · omega

/-- A reading that the clock shows is shown once if it is counted by one offset under either fold.
-/
theorem Regular.shows_once_of_displays (regular : z.Regular) (shown : z.Displays t)
    (alike : z.offsetOf t false = z.offsetOf t true) : z.ShowsOnce t := by
  obtain ⟨_, _, _, _, around, inside⟩ := regular.around_reading t
  refine ⟨alike, ?_⟩
  rw [shows, around.offset_at_instant_under inside shown false, beq_self_eq_true]

end Zone

/-- A reading is taken as one moment under either fold exactly if the clock shows it once. -/
theorem Moment.same_at_local_iff {z : Zone} (regular : z.Regular) (t : LocalTime)
    (fold other : Bool) :
    (atLocal z t fold).Same (atLocal z t other) ↔ z.ShowsOnce t ∨ fold = other := by
  constructor
  · intro same
    rw [or_iff_not_imp_right]
    intro apart
    by_cases skipped : z.Skips t
    · have gap := skipped.gap_pos
      have reading := congrArg LocalTime.ticks same.reading
      rw [at_local_of_skips skipped, at_local_of_skips skipped] at reading
      cases fold <;> cases other <;> simp at apart reading <;> omega
    · have shown := (regular.displays_iff t).mpr skipped
      have instant := same.instant
      rw [at_local_of_displays regular shown, at_local_of_displays regular shown, Moment.instant,
        Moment.instant, Zone.instantUnder, Zone.instantUnder] at instant
      simp only [Moment.offset, ticksPerSecond] at instant
      refine regular.shows_once_of_displays shown ?_
      cases fold <;> cases other <;> simp at apart <;> omega
  · rintro (once | rfl)
    · rw [at_local_of_shows_once once, at_local_of_shows_once once]
      refine ⟨rfl, rfl, ?_⟩
      rw [Moment.instant, Moment.instant, Moment.offset, Moment.offset, once.offset_eq fold,
        once.offset_eq other]
    · exact ⟨rfl, rfl, rfl⟩

end Reckon

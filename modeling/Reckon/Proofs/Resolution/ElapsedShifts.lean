import Reckon.Proofs.Calendar.PeriodGrains
import Reckon.Proofs.Clock.Counting
import Reckon.Proofs.Clock.WholeSeconds
import Reckon.Proofs.Resolution.IntervalOrder

/-!
# Shifts in elapsed time

A shift by hours, minutes and seconds moves the instant by as many seconds, whatever the clock does
on the way. So its parts can be added in any order, and the shift back comes to the instant again,
up to the fraction of a second.
-/

set_option autoImplicit false

namespace Reckon

open Sequencing Moment Zone LocalTime

namespace Period

def Short (period : Period) : Prop :=
  ∀ part ∈ period, part.1.size < Grain.day.size

def seconds (period : Period) : Int :=
  (period.map fun part => part.2 * part.1.seconds).sum

theorem seconds_cons (grain : Grain) (n : Int) (rest : Period) :
    Period.seconds ((grain, n) :: rest) = n * grain.seconds + Period.seconds rest := by
  rw [seconds, List.map_cons, List.sum_cons, seconds]

theorem seconds_perm {period other : Period} (same : other.Perm period) :
    other.seconds = period.seconds :=
  (same.map _).sum_eq

/-- The instants that are come to where the parts of a period are added one after the other. -/
def stops (sign : Int) : Period → Int → List Int
  | [], _ => []
  | (grain, n) :: rest, instant =>
    let next := instant + sign * n * grain.seconds * ticksPerSecond
    next :: stops sign rest next

end Period

namespace Zone

/-- From an instant on no part of a period leads out of the calendar. -/
def Stays (z : Zone) (sign : Int) (period : Period) (instant : Int) : Prop :=
  (LocalTime.mk instant).isRepresentable = true ∧
    ∀ stop ∈ period.stops sign instant, z.InCalendar stop

instance (z : Zone) (sign : Int) (period : Period) (instant : Int) :
    Decidable (z.Stays sign period instant) :=
  inferInstanceAs (Decidable (_ ∧ _))

end Zone

namespace TimeForm

variable {z : Zone} {period : Period}

theorem add_period_cons (sign : Int) {grain : Grain} (short : grain.size < Grain.day.size) (n : Int)
    (rest : Period) (m : Moment) :
    addPeriod sign ((grain, n) :: rest) m =
      if (LocalTime.mk m.instant).isRepresentable = true ∧
          m.zone.InCalendar (m.instant + sign * n * grain.seconds * ticksPerSecond) then
        addPeriod sign rest
          (readAt m.zone (m.instant + sign * n * grain.seconds * ticksPerSecond))
      else .error .outOfRange := by
  rw [addPeriod, add_short m short, add_elapsed_eq]
  split
  · rfl
  · rfl

/-- From what the clock reads at an instant the parts lead to what it reads at the sum, unless one
of them leads out of the calendar. -/
theorem add_period_read_at (regular : z.Regular) (short : period.Short) (sign instant : Int)
    (inside : (LocalTime.mk instant).isRepresentable = true) :
    addPeriod sign period (readAt z instant) =
      if ∀ stop ∈ period.stops sign instant, z.InCalendar stop then
        .ok (readAt z (instant + sign * period.seconds * ticksPerSecond))
      else .error .outOfRange := by
  -- each part counts from what the clock reads at the stop before it
  induction period generalizing instant with
  | nil => simp [addPeriod, Period.stops, Period.seconds]
  | cons part rest ih =>
      obtain ⟨grain, n⟩ := part
      obtain ⟨head, tail⟩ := List.forall_mem_cons.mp short
      have total : instant + sign * Period.seconds ((grain, n) :: rest) * ticksPerSecond =
          instant + sign * n * grain.seconds * ticksPerSecond +
            sign * Period.seconds rest * ticksPerSecond := by
        rw [Period.seconds_cons]
        ring
      rw [add_period_cons sign head, instant_read_at regular, Period.stops, total]
      simp only [List.forall_mem_cons]
      by_cases stays : z.InCalendar (instant + sign * n * grain.seconds * ticksPerSecond)
      · rw [if_pos ⟨inside, stays⟩]
        simp only [readAt, stays, true_and]
        exact ih tail _ stays.1
      · rw [if_neg fun both => stays both.2, if_neg fun both => stays both.1]

theorem add_period_eq {m : Moment} (regular : m.zone.Regular) (some : period ≠ [])
    (short : period.Short) (sign : Int) : addPeriod sign period m =
      if m.zone.Stays sign period m.instant then
        .ok (readAt m.zone (m.instant + sign * period.seconds * ticksPerSecond))
      else .error .outOfRange := by
  obtain ⟨⟨grain, n⟩, rest, rfl⟩ := List.exists_cons_of_ne_nil some
  have head : grain.size < Grain.day.size := short _ List.mem_cons_self
  by_cases inside : (LocalTime.mk m.instant).isRepresentable = true
  · have read : addPeriod sign ((grain, n) :: rest) m =
        addPeriod sign ((grain, n) :: rest) (readAt m.zone m.instant) := by
      rw [add_period_cons sign head, add_period_cons sign head, instant_read_at regular]
      rfl
    rw [read, add_period_read_at regular short sign _ inside]
    simp only [Stays, inside, true_and]
  · rw [add_period_cons sign head, if_neg fun both => inside both.1,
      if_neg fun stays => inside stays.1]

theorem ground_shift_eq (c : Context) (ref : Moment) {finest : Grain} (regular : ref.zone.Regular)
    (whole : ref.zone.WholeSeconds) (some : period ≠ []) (short : period.Short)
    (known : period.finest? = Option.some finest) (sign : Int) :
    (shift period sign).ground c ref =
      if ref.zone.Stays sign period ref.instant then
        .ok (readAt ref.zone
          (wholeSecond (ref.instant + sign * period.seconds * ticksPerSecond)), finest)
      else .error .outOfRange := by
  obtain ⟨part, listed, same⟩ := Period.exists_finest some
  have fine : ¬ Grain.day.size ≤ finest.size := by
    rw [known] at same
    cases same
    exact not_le.mpr (short part listed)
  rw [ground, groundShift, add_period_eq regular some short, known]
  split_ifs
  · rw [ok_bind]
    simp only [fine, if_false]
    rw [start_of_second_read_at regular whole]
    rfl
  · rfl

/-- A quarter of a second past half past midnight, in the night in which the clock is set back. -/
def parisNight : Moment :=
  ⟨Zone.paris, LocalTime.make ⟨2013, 10, 27⟩ 0 30 0 250000, false⟩

end TimeForm

end Reckon

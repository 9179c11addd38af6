import Reckon.Proofs.Clock.Truncation

/-!
# Counting grains

Seconds, minutes and hours are counted from instant to instant, as far as the calendar goes by UTC
and by the clock. So is a count of none, of any grain. Days are counted from reading to reading, as
far as the calendar goes by the clock.
-/

set_option autoImplicit false

namespace Reckon

open LocalTime Moment Zone

def Grain.seconds (g : Grain) : Int :=
  60 ^ g.size

/-- An instant is within the calendar, by UTC and by the clock. -/
def Zone.InCalendar (z : Zone) (instant : Int) : Prop :=
  (LocalTime.mk instant).isRepresentable = true ∧
    (readAt z instant).reading.isRepresentable = true

instance (z : Zone) (instant : Int) : Decidable (z.InCalendar instant) :=
  inferInstanceAs (Decidable (_ ∧ _))

namespace Moment

variable {m : Moment}

theorem add_elapsed_eq (m : Moment) (ticks : Int) : m.addElapsed ticks =
    if (LocalTime.mk m.instant).isRepresentable = true ∧ m.zone.InCalendar (m.instant + ticks) then
      .ok (readAt m.zone (m.instant + ticks))
    else .error .outOfRange := by
  by_cases utc : (LocalTime.mk m.instant).isRepresentable = true
  · rw [addElapsed, if_pos utc, ofInstant]
    simp only [utc, true_and, Bool.and_eq_true]
    rfl
  · rw [addElapsed, if_neg utc, if_neg fun both => utc both.1]

theorem add_elapsed_none_eq (regular : m.zone.Regular) (shown : m.zone.Displays m.reading) :
    m.addElapsed 0 =
      if (LocalTime.mk m.instant).isRepresentable = true ∧ m.reading.isRepresentable = true then
        .ok (readAt m.zone m.instant)
      else .error .outOfRange := by
  rw [add_elapsed_eq, Int.add_zero]
  simp only [InCalendar, read_at_instant regular shown, and_self_left]

theorem add_none (m : Moment) (grain : Grain) : m.add grain 0 = m.addElapsed 0 := by
  unfold add
  exact if_pos rfl

/-- A count of a grain that is finer than a day is so many seconds, also a count of none. -/
theorem add_short (m : Moment) {grain : Grain} (short : grain.size < Grain.day.size) (n : Int) :
    m.add grain n = m.addElapsed (n * grain.seconds * ticksPerSecond) := by
  by_cases none : n = 0
  · rw [none, add_none, Int.zero_mul, Int.zero_mul]
  · unfold add
    rw [if_neg none]
    cases grain with
    | second => simp [Grain.seconds, Grain.size]
    | minute => simp [Grain.seconds, Grain.size, ticksPerMinute, mul_assoc]
    | hour =>
        simp [Grain.seconds, Grain.size, ticksPerMinute, ticksPerHour, ticksPerSecond, mul_assoc]
    | day | week | month | year => simp [Grain.size] at short

theorem add_day_eq (regular : m.zone.Regular) {t : LocalTime} {days : Int} (moves : days ≠ 0)
    (counted : t.ticks = m.reading.ticks + days * ticksPerDay) (shown : m.zone.Displays t) :
    m.add .day days =
      if t.isRepresentable = true then .ok ⟨m.zone, t, true⟩ else .error .outOfRange := by
  have target : LocalTime.mk (m.reading.ticks + days * ticksPerDay) = t :=
    congrArg LocalTime.mk counted.symm
  rw [add, if_neg moves]
  simp only [addDays, target, at_local_of_displays regular shown]

/-- Days are counted from one reading that the clock shows to another, unless the calendar ends
before it; a count of none stays at the reading, unless that is outside of the calendar by UTC. -/
theorem add_day_reaches (regular : m.zone.Regular) (here : m.zone.Displays m.reading)
    {t : LocalTime} {days : Int} (counted : t.ticks = m.reading.ticks + days * ticksPerDay)
    (there : m.zone.Displays t) :
    (∃ r, m.add .day days = .ok r ∧ r.zone = m.zone ∧ r.reading = t) ∨
      m.add .day days = .error .outOfRange ∧
        (t.isRepresentable = false ∨ days = 0 ∧ ¬ Reaches m.zone t) := by
  by_cases none : days = 0
  · have still : t = m.reading := by
      rw [none, Int.zero_mul, Int.add_zero] at counted
      exact congrArg LocalTime.mk counted
    rw [none, add_none, add_elapsed_none_eq regular here, still]
    split_ifs with inside
    · exact .inl ⟨_, rfl, rfl, read_at_instant regular here⟩
    · exact .inr ⟨rfl, .inr ⟨rfl, fun reaches => inside ⟨reaches.2 m.fold, reaches.1⟩⟩⟩
  · rw [add_day_eq regular none counted there]
    split_ifs with inside
    · exact .inl ⟨_, rfl, rfl, rfl⟩
    · exact .inr ⟨rfl, .inl (eq_false_of_ne_true inside)⟩

end Moment

end Reckon

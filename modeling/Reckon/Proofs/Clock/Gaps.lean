import Reckon.Proofs.Clock.ZoneRules

/-!
# When the clock is put forward

In most zones the clock is put forward before noon, and in many not over a midnight. It is enough to
look at the ends of the eras, or at the change with which the season begins.
-/

set_option autoImplicit false

namespace Reckon.Zone

open LocalTime

variable {z : Zone}

/-- The readings that the clock is put forward over are before noon. -/
def ForwardEarly (z : Zone) : Prop :=
  ∀ t, z.Skips t → t.ticks % ticksPerDay < 43200 * ticksPerSecond

theorem Regular.exists_change (regular : z.Regular) {t : LocalTime} (skipped : z.Skips t) :
    ∃ change, z.offsetAt (change - 1) < z.offsetAt change ∧
      change + z.offsetAt (change - 1) * ticksPerSecond ≤ t.ticks ∧
      t.ticks < change + z.offsetAt change * ticksPerSecond := by
  obtain ⟨opening, change, before, after, around, inside⟩ := regular.around_reading t
  obtain ⟨late, early⟩ := (around.skips_iff inside).mp skipped
  obtain ⟨low, high⟩ := inside
  obtain ⟨lowBefore, highBefore⟩ := around.beforeShort
  obtain ⟨lowAfter, highAfter⟩ := around.afterShort
  refine ⟨change, ?_⟩
  simp only [ticks_per_day_eq, ticksPerSecond] at *
  have offsets := around.offsets
  simp only [ticks_per_day_eq] at offsets
  rw [offsets (change - 1) (by omega) (by omega), offsets change (by omega) (by omega),
    if_pos (by omega), if_neg (by omega)]
  omega

def closing (z : Zone) (e : Era) : LocalTime :=
  ⟨e.ends.ticks + z.offsetAt (e.ends.ticks - 1) * ticksPerSecond⟩

theorem forward_early_of_eras (regular : z.Regular) (season : z.season = none)
    (midnights : ∀ e ∈ z.eras, z.offsetAt (e.ends.ticks - 1) < z.offsetAt e.ends.ticks →
      (z.closing e).ticks % ticksPerDay = 0) : z.ForwardEarly := by
  intro t skipped
  obtain ⟨change, forward, low, high⟩ := regular.exists_change skipped
  have near := regular.near change (change - 1)
  have changes := forward.ne
  rw [offset_at_eq_era_offset season, offset_at_eq_era_offset season] at changes
  obtain ⟨e, member, rfl⟩ := era_offset_change _ _ changes
  have whole := midnights e member forward
  simp only [closing, ticks_per_day_eq, ticksPerSecond] at *
  omega

theorem Alternates.either {first second : Change} {outer inner : Int}
    (alternates : z.Alternates first second outer inner) (instant : Int) :
    z.offsetAt instant = outer ∨ z.offsetAt instant = inner := by
  rw [alternates.offsets]
  split
  · exact .inr rfl
  · exact .inl rfl

/-- The changes that put the clock forward are those of one kind. -/
def Forward (z : Zone) (c : Change) (before after : Int) : Prop :=
  ∀ change, z.offsetAt (change - 1) < z.offsetAt change →
    ∃ year, change = c.instant year ∧ z.offsetAt (change - 1) = before ∧ z.offsetAt change = after

theorem Alternates.forward_first {first second : Change} {outer inner : Int}
    (alternates : z.Alternates first second outer inner) (le : outer ≤ inner) :
    z.Forward first outer inner := by
  intro change forward
  have before := alternates.either (change - 1)
  rcases alternates.change forward.ne with ⟨same, after⟩ | ⟨-, after⟩
  · exact ⟨_, same, by omega, after⟩
  · omega

/-- Where the clock is put forward by changes of one kind, a reading that it skips is between the
times of day before and after the change. -/
theorem Regular.gap_of_forward {c : Change} {before after : Int} (regular : z.Regular)
    (forward : z.Forward c before after) {t : LocalTime} (skipped : z.Skips t) :
    ∃ year, c.dayNumber year * ticksPerDay +
        (c.seconds - c.offset + before) * ticksPerSecond ≤ t.ticks ∧
      t.ticks < c.dayNumber year * ticksPerDay +
        (c.seconds - c.offset + after) * ticksPerSecond := by
  obtain ⟨change, changes, low, high⟩ := regular.exists_change skipped
  obtain ⟨year, rfl, first, second⟩ := forward change changes
  rw [first, Change.instant] at low
  rw [second, Change.instant] at high
  rw [Int.add_mul, Int.add_mul]
  exact ⟨year, by omega, by omega⟩

theorem forward_early_of_forward {c : Change} {before after : Int} (regular : z.Regular)
    (forward : z.Forward c before after) (time : 0 ≤ c.seconds - c.offset + before ∧
      c.seconds - c.offset + after ≤ 43200) : z.ForwardEarly := by
  intro t skipped
  obtain ⟨year, low, high⟩ := regular.gap_of_forward forward skipped
  simp only [ticks_per_day_eq, ticksPerSecond] at *
  omega

/-- A clock that is put forward only between two midnights skips none. -/
theorem not_skips_midnight_of_forward {c : Change} {before after : Int} (regular : z.Regular)
    (forward : z.Forward c before after) (time : 0 < c.seconds - c.offset + before ∧
      c.seconds - c.offset + after ≤ 86400) (d : Date) : ¬ z.Skips (midnight d) := by
  intro skipped
  obtain ⟨year, low, high⟩ := regular.gap_of_forward forward skipped
  simp only [midnight, ticks_per_day_eq, ticksPerSecond] at low high
  omega

theorem tokyo_forward_early : tokyo.ForwardEarly :=
  forward_early_of_eras tokyo_regular rfl (by decide +kernel)

theorem beirut_forward_early : beirut.ForwardEarly := by
  have alternates := alternates_of_summer (z := beirut) rfl rfl
    (yearly_of_months _ (by decide) (by decide))
  exact forward_early_of_forward beirut_regular (alternates.forward_first (by decide)) (by decide)

end Reckon.Zone

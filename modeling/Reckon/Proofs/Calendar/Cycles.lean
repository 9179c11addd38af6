import Reckon.Proofs.Calendar.DayNumbers

/-!
# Cycles of the calendar

The calendar repeats after 400 years, which are whole weeks, so that what is said of every year is
checked on one cycle. A day of the year falls on every weekday within 12 years; 29 February falls on
every weekday within 40 years, and within 28 years if none of these leaves out its leap day.
-/

set_option autoImplicit false

namespace Reckon.Date

/-- The years of a century that is not a multiple of 400 have no leap day. -/
def SkipsLeapDay (year : Int) : Prop :=
  year % 100 = 0 ∧ year % 400 ≠ 0

theorem is_leap_iff (year : Int) : isLeap year = true ↔ year % 4 = 0 ∧ ¬ SkipsLeapDay year := by
  simp only [isLeap, SkipsLeapDay, Bool.and_eq_true, Bool.or_eq_true, beq_iff_eq, bne_iff_ne]
  omega

/-! The cycle of 400 years. -/

theorem days_before_year_cycle (year cycles : Int) :
    daysBeforeYear (year + 400 * cycles) = daysBeforeYear year + 146097 * cycles := by
  simp only [daysBeforeYear]
  omega

theorem skips_leap_day_cycle (year cycles : Int) :
    SkipsLeapDay (year + 400 * cycles) ↔ SkipsLeapDay year := by
  simp only [SkipsLeapDay]
  omega

def openingOf (past : Nat) : Nat :=
  (365 * past + past / 4 - past / 100 + past / 400) % 7

theorem opening_of_eq (past : Nat) : daysBeforeYear (past + 1) % 7 = openingOf past := by
  have centuries : past / 100 ≤ past / 4 := Nat.div_le_div_left (by decide) (by decide)
  simp only [daysBeforeYear, openingOf, Int.add_sub_cancel]
  push_cast [Nat.cast_sub (show past / 100 ≤ 365 * past + past / 4 by omega)]
  rfl

theorem exists_cycle (year : Int) :
    ∃ (past : Nat) (cycles : Int), past < 400 ∧ year = past + 400 * cycles :=
  ⟨(year % 400).toNat, year / 400, by omega, by omega⟩

/-! On which weekdays the years begin. -/

theorem openings_of_cycle : ((List.range 400).all fun past => (List.range 7).all fun weekday =>
    (List.range 12).any fun k => openingOf (past + k) == weekday) = true := by
  decide +kernel

theorem exists_opening (year weekday : Int) (low : 0 ≤ weekday) (high : weekday < 7) :
    ∃ y, year < y ∧ y ≤ year + 12 ∧ daysBeforeYear y % 7 = weekday := by
  obtain ⟨past, cycles, inside, rfl⟩ := exists_cycle year
  have checked := openings_of_cycle
  simp only [List.all_eq_true, List.any_eq_true, List.mem_range, beq_iff_eq] at checked
  obtain ⟨k, within, opens⟩ := checked past inside weekday.toNat (by omega)
  have begins := opening_of_eq (past + k)
  refine ⟨(past + k : Nat) + 1 + 400 * cycles, by omega, by omega, ?_⟩
  rw [days_before_year_cycle]
  omega

/-! On which weekdays the leap years begin. A leap year is four times a number. -/

def leapOpens (weekday quarter : Nat) : Bool :=
  (quarter % 25 != 0 || quarter % 100 == 0) && openingOf (4 * quarter - 1) == weekday

theorem leap_opens_year {weekday quarter : Nat} (opens : leapOpens weekday quarter = true)
    (positive : 0 < quarter) (cycles : Int) :
    isLeap (4 * quarter + 400 * cycles) = true ∧
      daysBeforeYear (4 * quarter + 400 * cycles) % 7 = weekday := by
  simp only [leapOpens, Bool.and_eq_true, Bool.or_eq_true, bne_iff_ne, beq_iff_eq] at opens
  obtain ⟨leap, opens⟩ := opens
  have begins := opening_of_eq (4 * quarter - 1)
  have year : ((4 * quarter - 1 : Nat) : Int) + 1 = 4 * quarter := by omega
  rw [year] at begins
  constructor
  · rw [is_leap_iff, skips_leap_day_cycle, SkipsLeapDay]
    omega
  · rw [days_before_year_cycle]
    omega

theorem leaps_of_cycle : ((List.range 100).all fun past => (List.range 7).all fun weekday =>
    (List.range 10).any fun k => leapOpens weekday (past + 1 + k)) = true := by
  decide +kernel

theorem exists_leap_opening (year weekday : Int) (low : 0 ≤ weekday) (high : weekday < 7) :
    ∃ y, year < y ∧ y ≤ year + 40 ∧ isLeap y = true ∧ daysBeforeYear y % 7 = weekday := by
  obtain ⟨past, cycles, inside, rfl⟩ := exists_cycle year
  have checked := leaps_of_cycle
  simp only [List.all_eq_true, List.any_eq_true, List.mem_range] at checked
  obtain ⟨k, within, opens⟩ := checked (past / 4) (by omega) weekday.toNat (by omega)
  obtain ⟨leap, begins⟩ := leap_opens_year opens (by omega) cycles
  exact ⟨_, by omega, by omega, leap, by omega⟩

theorem leaps_of_cycle_or_skips : ((List.range 100).all fun past =>
    ((List.range 7).any fun k => (past + 1 + k) % 25 == 0 && (past + 1 + k) % 100 != 0) ||
    (List.range 7).all fun weekday =>
      (List.range 7).any fun k => leapOpens weekday (past + 1 + k)) = true := by
  decide +kernel

/-- Among the 28 years after a year one leaves out its leap day, or a leap year begins on any given
weekday. -/
theorem exists_leap_opening_or_skips (year weekday : Int) (low : 0 ≤ weekday)
    (high : weekday < 7) : (∃ y, year < y ∧ y ≤ year + 28 ∧ SkipsLeapDay y) ∨
      ∃ y, year < y ∧ y ≤ year + 28 ∧ isLeap y = true ∧ daysBeforeYear y % 7 = weekday := by
  obtain ⟨past, cycles, inside, rfl⟩ := exists_cycle year
  have checked := leaps_of_cycle_or_skips
  simp only [List.all_eq_true, List.any_eq_true, List.mem_range, Bool.or_eq_true,
    Bool.and_eq_true, beq_iff_eq, bne_iff_ne] at checked
  rcases checked (past / 4) (by omega) with ⟨k, within, skips⟩ | all
  · refine .inl ⟨4 * (past / 4 + 1 + k : Nat) + 400 * cycles, by omega, by omega, ?_⟩
    rw [skips_leap_day_cycle, SkipsLeapDay]
    omega
  · obtain ⟨k, within, opens⟩ := all weekday.toNat (by omega)
    obtain ⟨leap, begins⟩ := leap_opens_year opens (by omega) cycles
    exact .inr ⟨_, by omega, by omega, leap, by omega⟩

/-! On which weekdays a day of the year falls. -/

theorem weekday_bounds (d : Date) : 0 ≤ d.weekday ∧ d.weekday < 7 := by
  rw [Date.weekday, weekdayOf]
  omega

theorem month_length_eq (year other : Int) {month : Int} (notFebruary : month ≠ 2) :
    monthLength year month = monthLength other month := by
  unfold monthLength monthLengths
  rcases lt_or_ge (month - 1).toNat 12 with inside | outside
  · have notSecond : (month - 1).toNat ≠ 1 := by omega
    generalize (month - 1).toNat = n at inside notSecond
    interval_cases n <;> simp_all
  · rw [List.getD_eq_default _ _ (by simpa using outside),
      List.getD_eq_default _ _ (by simpa using outside)]

/-- Every day of the year but 29 February is a day of every year. -/
theorem Proper.of_year {year month day : Int} (proper : (Date.mk year month day).Proper)
    (notLeapDay : ¬ (month = 2 ∧ day = 29)) (other : Int) : (Date.mk other month day).Proper := by
  obtain ⟨months, first, last⟩ := proper
  refine ⟨months, first, ?_⟩
  simp only at *
  by_cases february : month = 2
  · subst february
    have short := (month_length_bounds other 2).1
    have long : monthLength year 2 ≤ 29 := by
      change (if isLeap year then 29 else 28) ≤ (29 : Int)
      split <;> decide
    omega
  · rw [month_length_eq other year february]
    exact last

theorem proper_leap_day (year : Int) : (Date.mk year 2 29).Proper ↔ isLeap year = true := by
  have length : monthLength year 2 = if isLeap year then 29 else 28 := rfl
  constructor
  · intro proper
    have last := proper.day.2
    simp only [length] at last
    by_contra short
    rw [if_neg short] at last
    omega
  · intro leap
    refine ⟨by simp, by simp, ?_⟩
    simp only [length, leap, if_true, le_refl]

/-- A day of the year is a fixed number of days from the start of the year, or from March on before
the start of the next. -/
theorem exists_day_number_eq {month : Int} (low : 1 ≤ month) (high : month ≤ 12) (day : Int) :
    ∃ later rest, ∀ year, dayNumber ⟨year, month, day⟩ = daysBeforeYear (year + later) + rest := by
  by_cases early : month ≤ 2
  · refine ⟨0, daysBeforeMonth 1 month + (day - 1), fun year => ?_⟩
    have same : daysBeforeMonth year month = daysBeforeMonth 1 month := by
      interval_cases month <;> rfl
    simp only [dayNumber, same, Int.add_zero]
    omega
  · refine ⟨1, daysBeforeMonth 1 month - 365 + (day - 1), fun year => ?_⟩
    have leap : daysBeforeMonth year month = daysBeforeMonth 1 month +
        if isLeap year then 1 else 0 := by
      interval_cases month <;> simp [daysBeforeMonth, monthLengths, show isLeap 1 = false by rfl]
        <;> split <;> rfl
    have next := days_before_year_succ year
    simp only [dayNumber, leap]
    split_ifs at * <;> omega

theorem exists_weekday {month : Int} (low : 1 ≤ month) (high : month ≤ 12) (day year : Int)
    {weekday : Int} (first : 0 ≤ weekday) (last : weekday < 7) :
    ∃ y, year < y ∧ y ≤ year + 12 ∧ (Date.mk y month day).weekday = weekday := by
  obtain ⟨later, rest, counted⟩ := exists_day_number_eq low high day
  obtain ⟨y, after, within, opens⟩ :=
    exists_opening (year + later) ((weekday - rest) % 7) (by omega) (by omega)
  refine ⟨y - later, by omega, by omega, ?_⟩
  have same := counted (y - later)
  rw [Int.sub_add_cancel] at same
  rw [Date.weekday, weekdayOf, same]
  omega

theorem weekday_leap_day (year : Int) :
    (Date.mk year 2 29).weekday = (daysBeforeYear year + 59) % 7 := by
  have counted : dayNumber ⟨year, 2, 29⟩ = daysBeforeYear year + 31 + 28 := rfl
  rw [Date.weekday, weekdayOf, counted]
  omega

theorem exists_leap_day (year : Int) {weekday : Int} (first : 0 ≤ weekday) (last : weekday < 7) :
    ∃ y, year < y ∧ y ≤ year + 40 ∧ isLeap y = true ∧ (Date.mk y 2 29).weekday = weekday := by
  obtain ⟨y, after, within, leap, opens⟩ :=
    exists_leap_opening year ((weekday - 59) % 7) (by omega) (by omega)
  refine ⟨y, after, within, leap, ?_⟩
  rw [weekday_leap_day]
  omega

theorem exists_leap_day_or_skips (year : Int) {weekday : Int} (first : 0 ≤ weekday)
    (last : weekday < 7) : (∃ y, year < y ∧ y ≤ year + 28 ∧ SkipsLeapDay y) ∨
      ∃ y, year < y ∧ y ≤ year + 28 ∧ isLeap y = true ∧ (Date.mk y 2 29).weekday = weekday := by
  rcases exists_leap_opening_or_skips year ((weekday - 59) % 7) (by omega) (by omega) with
    skips | ⟨y, after, within, leap, opens⟩
  · exact .inl skips
  · refine .inr ⟨y, after, within, leap, ?_⟩
    rw [weekday_leap_day]
    omega

/-- Two years of one length that begin on one weekday have the same calendar. -/
theorem same_calendar {a b : Int} (lengths : isLeap a = isLeap b)
    (weeks : (daysBeforeYear b - daysBeforeYear a) % 7 = 0) (month day : Int) :
    ((Date.mk a month day).Proper ↔ (Date.mk b month day).Proper) ∧
      (Date.mk a month day).weekday = (Date.mk b month day).weekday := by
  have months : monthLengths a = monthLengths b := by rw [monthLengths, monthLengths, lengths]
  have length : monthLength a month = monthLength b month := by
    rw [monthLength, monthLength, months]
  have before : daysBeforeMonth a month = daysBeforeMonth b month := by
    rw [daysBeforeMonth, daysBeforeMonth, months]
  constructor
  · constructor
    · exact fun proper => ⟨proper.month, length ▸ proper.day⟩
    · exact fun proper => ⟨proper.month, length ▸ proper.day⟩
  · simp only [Date.weekday, weekdayOf, dayNumber, before]
    omega

end Reckon.Date

import Mathlib
import Reckon.Calendar.Date

/-!
# Counting days

The date of a day number is the date that is counted by it, and a date that exists is the date of
its day number. Day numbers order the dates by year, month and day.
-/

set_option autoImplicit false

namespace Reckon.Date

/-- The year of a day is the one that begins not after it and ends after it. -/
theorem year_of_day_holds (n : Int) :
    daysBeforeYear (yearOfDay n) ≤ n ∧ n < daysBeforeYear (yearOfDay n + 1) := by
  unfold yearOfDay daysBeforeYear
  simp only
  split
  · omega
  · split
    · omega
    · omega

theorem sum_month_lengths (year : Int) :
    (monthLengths year).sum = daysBeforeYear (year + 1) - daysBeforeYear year := by
  have leap : isLeap year = true ↔ year % 4 = 0 ∧ (year % 100 ≠ 0 ∨ year % 400 = 0) := by
    simp [isLeap]
  unfold monthLengths daysBeforeYear
  by_cases long : isLeap year = true
  · rw [if_pos long]
    rw [leap] at long
    simp
    omega
  · rw [if_neg long]
    rw [leap] at long
    simp
    omega

theorem month_and_day_holds (first rest : Int) (lengths : List Int) (start : 0 ≤ rest)
    (inside : rest < lengths.sum) :
    ∃ before length after, lengths = before ++ length :: after ∧
      (monthAndDay first rest lengths).1 = first + before.length ∧
      rest = before.sum + ((monthAndDay first rest lengths).2 - 1) ∧
      1 ≤ (monthAndDay first rest lengths).2 ∧ (monthAndDay first rest lengths).2 ≤ length := by
  induction lengths generalizing first rest with
  | nil =>
      simp at inside
      omega
  | cons length later ih =>
      rw [monthAndDay]
      split
      · exact ⟨[], length, later, rfl, by simp, by simp, by simp; omega, by simp; omega⟩
      · rw [List.sum_cons] at inside
        obtain ⟨before, own, after, split, month, day, low, high⟩ :=
          ih (first + 1) (rest - length) (by omega) (by omega)
        refine ⟨length :: before, own, after, by rw [split]; rfl, ?_, ?_, low, high⟩
        · rw [month, List.length_cons]
          omega
        · rw [List.sum_cons]
          omega

theorem day_number_of_day_number (n : Int) : (ofDayNumber n).dayNumber = n := by
  obtain ⟨start, stop⟩ := year_of_day_holds n
  have whole := sum_month_lengths (yearOfDay n)
  obtain ⟨before, length, after, split, month, day, -⟩ :=
    month_and_day_holds 1 (n - daysBeforeYear (yearOfDay n)) (monthLengths (yearOfDay n))
      (by omega) (by omega)
  have past : daysBeforeMonth (yearOfDay n) (1 + before.length) = before.sum := by
    have count : (1 + (before.length : Int) - 1).toNat = before.length := by omega
    rw [daysBeforeMonth, count, split, List.take_left]
    rfl
  have opened : (ofDayNumber n).dayNumber = daysBeforeYear (yearOfDay n) +
      daysBeforeMonth (yearOfDay n)
        (monthAndDay 1 (n - daysBeforeYear (yearOfDay n)) (monthLengths (yearOfDay n))).1 +
      ((monthAndDay 1 (n - daysBeforeYear (yearOfDay n)) (monthLengths (yearOfDay n))).2 - 1) := rfl
  rw [opened, month, past]
  omega

/-! Years and months. -/

theorem days_before_year_mono {a b : Int} (le : a ≤ b) : daysBeforeYear a ≤ daysBeforeYear b := by
  simp only [daysBeforeYear]
  omega

theorem days_before_year_succ (year : Int) :
    daysBeforeYear (year + 1) = daysBeforeYear year + if isLeap year then 366 else 365 := by
  have leap : isLeap year = true ↔ year % 4 = 0 ∧ (year % 100 ≠ 0 ∨ year % 400 = 0) := by
    simp [isLeap]
  simp only [daysBeforeYear]
  split
  · rename_i long
    rw [leap] at long
    omega
  · rename_i short
    rw [leap] at short
    omega

theorem length_month_lengths (year : Int) : (monthLengths year).length = 12 := rfl

theorem month_length_bounds (year month : Int) :
    28 ≤ monthLength year month ∧ monthLength year month ≤ 31 := by
  unfold monthLength
  rcases lt_or_ge (month - 1).toNat 12 with inside | outside
  · generalize (month - 1).toNat = n at inside
    interval_cases n <;> simp [monthLengths]
    split <;> simp
  · rw [List.getD_eq_default _ _ (by rw [length_month_lengths]; exact outside)]
    simp

theorem days_before_month_succ (year : Int) {month : Int} (low : 1 ≤ month) (high : month ≤ 12) :
    daysBeforeMonth year (month + 1) = daysBeforeMonth year month + monthLength year month := by
  have count : (month + 1 - 1).toNat = (month - 1).toNat + 1 := by omega
  have inside : (month - 1).toNat < (monthLengths year).length := by
    rw [length_month_lengths]
    omega
  change ((monthLengths year).take (month + 1 - 1).toNat).sum =
    ((monthLengths year).take (month - 1).toNat).sum + monthLength year month
  rw [monthLength, count, List.take_succ_eq_append_getElem inside, List.sum_append,
    List.getD_eq_getElem _ _ inside, List.sum_singleton]

theorem days_before_month_mono (year : Int) {a b : Int} (low : 1 ≤ a) (le : a ≤ b) (high : b ≤ 13) :
    daysBeforeMonth year a ≤ daysBeforeMonth year b := by
  induction b, le using Int.leInduction with
  | base => exact le_rfl
  | succ b le ih =>
      rw [days_before_month_succ year (by omega) (by omega)]
      have := month_length_bounds year b
      have := ih (by omega)
      omega

theorem days_before_month_thirteen (year : Int) :
    daysBeforeMonth year 13 = daysBeforeYear (year + 1) - daysBeforeYear year :=
  sum_month_lengths year

/-! Dates that exist. -/

/-- The date is a day of the calendar. -/
structure Proper (d : Date) : Prop where
  month : 1 ≤ d.month ∧ d.month ≤ 12
  day : 1 ≤ d.day ∧ d.day ≤ monthLength d.year d.month

theorem is_valid_iff (d : Date) : d.isValid = true ↔ (1 ≤ d.year ∧ d.year ≤ 9999) ∧ d.Proper := by
  simp only [isValid, Bool.and_eq_true, decide_eq_true_eq]
  constructor
  · rintro ⟨⟨⟨⟨⟨a, b⟩, c⟩, e⟩, f⟩, g⟩
    exact ⟨⟨a, b⟩, ⟨c, e⟩, ⟨f, g⟩⟩
  · rintro ⟨⟨a, b⟩, ⟨c, e⟩, ⟨f, g⟩⟩
    exact ⟨⟨⟨⟨⟨a, b⟩, c⟩, e⟩, f⟩, g⟩

theorem Proper.day_number_lt_month {d : Date} (proper : d.Proper) :
    daysBeforeYear d.year + daysBeforeMonth d.year d.month ≤ d.dayNumber ∧
      d.dayNumber < daysBeforeYear d.year + daysBeforeMonth d.year (d.month + 1) := by
  obtain ⟨⟨low, high⟩, first, last⟩ := proper
  rw [days_before_month_succ d.year low high, dayNumber]
  omega

theorem Proper.day_number_lt_year {d : Date} (proper : d.Proper) :
    daysBeforeYear d.year ≤ d.dayNumber ∧ d.dayNumber < daysBeforeYear (d.year + 1) := by
  obtain ⟨start, stop⟩ := proper.day_number_lt_month
  obtain ⟨⟨low, high⟩, -⟩ := proper
  have first : (0 : Int) ≤ daysBeforeMonth d.year d.month :=
    days_before_month_mono d.year le_rfl low (by omega)
  have last := days_before_month_mono d.year (show 1 ≤ d.month + 1 by omega)
    (show d.month + 1 ≤ 13 by omega) le_rfl
  rw [days_before_month_thirteen] at last
  omega

theorem Proper.day_number_lt_iff {a b : Date} (here : a.Proper) (there : b.Proper) :
    a.dayNumber < b.dayNumber ↔ a.year < b.year ∨ a.year = b.year ∧
      (a.month < b.month ∨ a.month = b.month ∧ a.day < b.day) := by
  obtain ⟨startYear, stopYear⟩ := here.day_number_lt_year
  obtain ⟨startOther, stopOther⟩ := there.day_number_lt_year
  rcases lt_trichotomy a.year b.year with before | same | after
  · have := days_before_year_mono (show a.year + 1 ≤ b.year by omega)
    omega
  · obtain ⟨start, stop⟩ := here.day_number_lt_month
    obtain ⟨startThere, stopThere⟩ := there.day_number_lt_month
    have months := here.month
    have others := there.month
    rw [same] at start stop
    rcases lt_trichotomy a.month b.month with earlier | equal | later
    · have := days_before_month_mono b.year (show 1 ≤ a.month + 1 by omega)
        (show a.month + 1 ≤ b.month by omega) (by omega)
      omega
    · simp [dayNumber, same, equal]
    · have := days_before_month_mono b.year (show 1 ≤ b.month + 1 by omega)
        (show b.month + 1 ≤ a.month by omega) (by omega)
      omega
  · have := days_before_year_mono (show b.year + 1 ≤ a.year by omega)
    omega

@[simp] theorem year_of_day_number (n : Int) : (ofDayNumber n).year = yearOfDay n := rfl

theorem month_of_day_number (n : Int) : (ofDayNumber n).month =
    (monthAndDay 1 (n - daysBeforeYear (yearOfDay n)) (monthLengths (yearOfDay n))).1 := rfl

theorem day_of_day_number (n : Int) : (ofDayNumber n).day =
    (monthAndDay 1 (n - daysBeforeYear (yearOfDay n)) (monthLengths (yearOfDay n))).2 := rfl

theorem of_day_number_proper (n : Int) : (ofDayNumber n).Proper := by
  obtain ⟨start, stop⟩ := year_of_day_holds n
  have whole := sum_month_lengths (yearOfDay n)
  obtain ⟨before, length, after, split, month, -, low, high⟩ :=
    month_and_day_holds 1 (n - daysBeforeYear (yearOfDay n)) (monthLengths (yearOfDay n))
      (by omega) (by omega)
  have count := length_month_lengths (yearOfDay n)
  rw [split] at count
  simp only [List.length_append, List.length_cons] at count
  have own : monthLength (yearOfDay n) (1 + before.length) = length := by
    have place : (1 + (before.length : Int) - 1).toNat = before.length := by omega
    rw [monthLength, place, split]
    simp
  constructor
  · rw [month_of_day_number]
    omega
  · rw [day_of_day_number, year_of_day_number, month_of_day_number, month, own]
    exact ⟨low, high⟩

/-- Days of the calendar are told apart by their numbers. -/
theorem Proper.eq_of_day_number {a b : Date} (here : a.Proper) (there : b.Proper)
    (same : a.dayNumber = b.dayNumber) : a = b := by
  have notBefore := (here.day_number_lt_iff there).not.mp (by omega)
  have notAfter := (there.day_number_lt_iff here).not.mp (by omega)
  obtain ⟨year, month, day⟩ := a
  obtain ⟨otherYear, otherMonth, otherDay⟩ := b
  simp only at notBefore notAfter
  simp only [Date.mk.injEq]
  omega

theorem Proper.of_day_number_day_number {d : Date} (proper : d.Proper) :
    ofDayNumber d.dayNumber = d :=
  (of_day_number_proper d.dayNumber).eq_of_day_number proper (day_number_of_day_number d.dayNumber)

/-! Months counted from the start of year 0. -/

def monthIndex (d : Date) : Int :=
  d.year * 12 + (d.month - 1)

def ofMonthIndex (index day : Int) : Date :=
  ⟨index / 12, index % 12 + 1, day⟩

theorem month_index_of_month_index (index day : Int) :
    (ofMonthIndex index day).monthIndex = index := by
  simp only [monthIndex, ofMonthIndex]
  omega

theorem Proper.of_month_index_month_index {d : Date} (proper : d.Proper) :
    ofMonthIndex d.monthIndex d.day = d := by
  have months := proper.month
  obtain ⟨year, month, day⟩ := d
  simp only at months
  simp only [monthIndex, ofMonthIndex, Date.mk.injEq, and_true]
  omega

theorem Proper.day_number_lt_of_month_index {a b : Date} (here : a.Proper) (there : b.Proper)
    (lt : a.monthIndex < b.monthIndex) : a.dayNumber < b.dayNumber := by
  have months := here.month
  have others := there.month
  rw [here.day_number_lt_iff there]
  simp only [monthIndex] at lt
  omega

theorem proper_of_month_index_one (index : Int) : (ofMonthIndex index 1).Proper := by
  have length := (month_length_bounds (index / 12) (index % 12 + 1)).1
  refine ⟨?_, le_rfl, ?_⟩
  · simp only [ofMonthIndex]
    omega
  · simp only [ofMonthIndex]
    omega

theorem month_index_add_months (d : Date) (years months : Int) :
    (d.addMonths years months).monthIndex = d.monthIndex + 12 * years + months := by
  simp only [monthIndex, addMonths]
  omega

theorem Proper.add_months {d : Date} (proper : d.Proper) (years months : Int) :
    (d.addMonths years months).Proper := by
  have first := proper.day.1
  refine ⟨?_, ?_⟩
  · simp only [Date.addMonths]
    omega
  · simp only [Date.addMonths]
    exact ⟨le_min first (le_trans (by decide) (month_length_bounds _ _).1), min_le_right _ _⟩

/-- The day before a date is in the same month, or before the first day in the month before. -/
theorem Proper.month_index_yesterday {d : Date} (proper : d.Proper) :
    (ofDayNumber (d.dayNumber - 1)).monthIndex =
      if d.day = 1 then d.monthIndex - 1 else d.monthIndex := by
  have before := of_day_number_proper (d.dayNumber - 1)
  have counted := day_number_of_day_number (d.dayNumber - 1)
  generalize ofDayNumber (d.dayNumber - 1) = e at before counted
  have first := proper_of_month_index_one
  have index := fun i => month_index_of_month_index i 1
  have notLater : e.monthIndex ≤ d.monthIndex := by
    by_contra later
    have := proper.day_number_lt_of_month_index before (not_le.mp later)
    omega
  have notEarlier : d.monthIndex - 1 ≤ e.monthIndex := by
    by_contra earlier
    have := before.day_number_lt_of_month_index (first (d.monthIndex - 1)) (by rw [index]; omega)
    have := (first (d.monthIndex - 1)).day_number_lt_of_month_index proper (by rw [index]; omega)
    omega
  have precedes := (before.day_number_lt_iff proper).mp (by omega)
  have months := proper.month
  have others := before.month
  split
  · have days := before.day
    simp only [monthIndex] at notLater notEarlier ⊢
    omega
  · rename_i later
    by_contra other
    -- the first of the month would lie between the two days
    have opening : ofMonthIndex d.monthIndex 1 = ⟨d.year, d.month, 1⟩ := by
      simp only [ofMonthIndex, monthIndex, Date.mk.injEq, and_true]
      omega
    have := before.day_number_lt_of_month_index (first d.monthIndex) (by rw [index]; omega)
    have days := proper.day
    have inMonth := ((first d.monthIndex).day_number_lt_iff proper).mpr
      (opening ▸ .inr ⟨rfl, .inr ⟨rfl, show 1 < d.day by omega⟩⟩)
    omega

end Reckon.Date

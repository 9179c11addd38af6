import Reckon.Proofs.Clock.Midnights
import Reckon.Proofs.Calendar.Cycles
import Reckon.Proofs.Resolution.Grounding

/-!
# Searching for a date

A date without a year is searched for year by year, and a day without a month month by month. Either
search comes to the first date that is not before today and has the wanted weekday, whether or not
the clock shows its midnight or today's.
-/

set_option autoImplicit false

namespace Reckon

open Sequencing

/-- What a search through some numbers comes to: the first hit among them, or nothing. -/
inductive FirstHit {α : Type} (hit : Int → Prop) (result : Int → α) (first : Int) (count : Nat) :
    Except Failure (Option α) → Prop
  | found (i : Int) (low : first ≤ i) (high : i < first + count) (hits : hit i)
      (before : ∀ k, first ≤ k → k < i → ¬ hit k) :
      FirstHit hit result first count (.ok (some (result i)))
  | missed (misses : ∀ k, first ≤ k → k < first + count → ¬ hit k) :
      FirstHit hit result first count (.ok none)

namespace FirstHit

variable {α : Type} {hit : Int → Prop} {result : Int → α} {first : Int} {count : Nat}

theorem empty (hit : Int → Prop) (result : Int → α) (first : Int) :
    FirstHit hit result first 0 (.ok none) :=
  .missed fun k low high => by omega

theorem here (hits : hit first) : FirstHit hit result first (count + 1)
    (.ok (some (result first))) :=
  .found first le_rfl (by omega) hits fun k low high => by omega

theorem next {found : Except Failure (Option α)} (miss : ¬ hit first)
    (rest : FirstHit hit result (first + 1) count found) :
    FirstHit hit result first (count + 1) found := by
  have passes : ∀ k, first ≤ k → first + 1 ≤ k ∨ ¬ hit k := by
    intro k low
    by_cases same : k = first
    · exact .inr (same ▸ miss)
    · exact .inl (by omega)
  cases rest with
  | found i low high hits before =>
      refine .found i (by omega) (by omega) hits fun k after inside => ?_
      exact (passes k after).elim (fun later => before k later inside) id
  | missed misses =>
      refine .missed fun k after inside => ?_
      exact (passes k after).elim (fun later => misses k later (by omega)) id

/-- The numbers can be moved on by one if the first is no hit and the new one not the first hit. -/
theorem shift {found : Except Failure (Option α)} (search : FirstHit hit result first count found)
    (miss : ¬ hit first)
    (last : hit (first + count) → ∃ k, first ≤ k ∧ k < first + count ∧ hit k) :
    FirstHit hit result (first + 1) count found := by
  cases search with
  | found i low high hits before =>
      have later : i ≠ first := fun same => miss (same ▸ hits)
      exact .found i (by omega) (by omega) hits fun k after inside => before k (by omega) inside
  | missed misses =>
      refine .missed fun k low high hits => ?_
      by_cases inside : k < first + count
      · exact misses k (by omega) inside hits
      · obtain ⟨j, after, before, other⟩ := last ((show k = first + count by omega) ▸ hits)
        exact misses j after before other

end FirstHit

/-- A date not before another one, on the weekday that is wanted, if one is. -/
structure Date.Upcoming (ref : Date) (weekday : Option Int) (d : Date) : Prop where
  valid : d.isValid = true
  after : ref.dayNumber ≤ d.dayNumber
  weekday : ∀ w ∈ weekday, d.weekday = w

namespace TimeForm

open Moment Zone

variable {ref : Moment} {weekday : Option Int}

theorem upcoming_iff (regular : ref.zone.Regular) (weekday : Option Int) (d : Date) :
    Date.Upcoming ref.date weekday d ↔
      d.isValid = true ∧ isUpcoming ref.startOfDay weekday (midnightOf ref.zone d) = true := by
  have wanted : (weekday == none || weekday == some d.weekday) = true ↔
      ∀ w ∈ weekday, d.weekday = w := by
    cases weekday with
    | none => simp
    | some w => simp [eq_comm (a := w), beq_eq_decide]
  rw [isUpcoming, Bool.and_eq_true, Bool.not_eq_true', is_before_start_of_day regular,
    weekday_midnight_of regular, wanted]
  exact ⟨fun ⟨valid, after, weekday⟩ => ⟨valid, after, weekday⟩,
    fun ⟨valid, after, weekday⟩ => ⟨valid, after, weekday⟩⟩

/-- A date in a search: it is taken if it is upcoming, and passed over otherwise. -/
def consider (ref : Moment) (weekday : Option Int) (d : Date)
    (rest : Except Failure (Option Moment)) : Except Failure (Option Moment) := do
  match ← ofDate? ref.startOfDay.zone d with
  | some m => if isUpcoming ref.startOfDay weekday m then return some m else rest
  | none => rest

theorem fits_field_iff (n : Int) :
    fitsField n = true ↔ -2147483648 ≤ n ∧ n < 2147483648 := by
  rw [fitsField, Bool.and_eq_true, decide_eq_true_eq, decide_eq_true_eq]
  rfl

/-- The parts of a date are numbers that a date can hold at all. -/
structure Fits (d : Date) : Prop where
  year : fitsField d.year = true
  month : fitsField d.month = true
  day : fitsField d.day = true

theorem consider_eq {d : Date} (fits : Fits d) (rest : Except Failure (Option Moment)) :
    consider ref weekday d rest =
      if d.isValid = true ∧ isUpcoming ref.startOfDay weekday (midnightOf ref.zone d) = true then
        .ok (some (midnightOf ref.zone d))
      else rest := by
  have zone : ref.startOfDay.zone = ref.zone := start_of_day_is_in rfl
  rw [consider, zone, of_date?_eq ⟨fits.year, fits.month, fits.day⟩, ok_bind]
  by_cases valid : d.isValid = true
  · simp [valid, Pure.pure, Except.pure]
  · simp [valid]

theorem first_hit_consider (regular : ref.zone.Regular) (date : Int → Date) {first : Int}
    {count : Nat} {rest : Except Failure (Option Moment)} (fits : Fits (date first))
    (searched : FirstHit (fun i => Date.Upcoming ref.date weekday (date i))
      (fun i => midnightOf ref.zone (date i)) (first + 1) count rest) :
    FirstHit (fun i => Date.Upcoming ref.date weekday (date i))
      (fun i => midnightOf ref.zone (date i)) first (count + 1)
      (consider ref weekday (date first) rest) := by
  have upcoming := upcoming_iff regular weekday (date first)
  rw [consider_eq fits]
  split
  · rename_i hits
    exact .here (upcoming.mpr hits)
  · rename_i misses
    exact .next (fun hits => misses (upcoming.mp hits)) searched

theorem search_years_first_hit (regular : ref.zone.Regular) {month day : Int}
    (fits : fitsField month = true ∧ fitsField day = true) (weekday : Option Int) (count : Nat)
    (year : Int)
    (years : ∀ y, year ≤ y → y < year + count → fitsField y = true) :
    FirstHit (fun y => Date.Upcoming ref.date weekday ⟨y, month, day⟩)
      (fun y => midnightOf ref.zone ⟨y, month, day⟩) year count
      (searchYears ref.startOfDay month day weekday count year) := by
  induction count generalizing year with
  | zero => exact .empty _ _ _
  | succ count ih =>
      exact first_hit_consider regular (fun y => ⟨y, month, day⟩)
        ⟨years year le_rfl (by omega), fits.1, fits.2⟩
        (ih (year + 1) fun y low high => years y (by omega) (by omega))

/-- A search by months looks at the months that follow the month of its start. -/
theorem search_months_first_hit (regular : ref.zone.Regular) {start : Moment} {day : Int}
    (fits : fitsField day = true) (weekday : Option Int) (count : Nat) (index : Int)
    (months : ∀ i, index ≤ i → i < index + count → ∃ m, start.add .month i = .ok m ∧
      m.date.monthIndex = start.date.monthIndex + i ∧ fitsField m.date.year = true) :
    FirstHit (fun i => Date.Upcoming ref.date weekday (Date.ofMonthIndex i day))
      (fun i => midnightOf ref.zone (Date.ofMonthIndex i day)) (start.date.monthIndex + index) count
      (searchMonths ref.startOfDay start day weekday count index) := by
  induction count generalizing index with
  | zero => exact .empty _ _ _
  | succ count ih =>
      obtain ⟨m, added, month, year⟩ := months index le_rfl (by omega)
      have bounds := m.proper.month
      have date : Date.ofMonthIndex (start.date.monthIndex + index) day =
          ⟨m.date.year, m.date.month, day⟩ := by
        rw [← month]
        simp only [Date.ofMonthIndex, Date.monthIndex, Date.mk.injEq, and_true]
        omega
      have monthFits : fitsField m.date.month = true := by
        rw [fits_field_iff]
        omega
      have rest := ih (index + 1) fun i low high => months i (by omega) (by omega)
      rw [← Int.add_assoc] at rest
      have step := first_hit_consider regular (fun i => Date.ofMonthIndex i day)
        (date ▸ ⟨year, monthFits, fits⟩) rest
      rw [searchMonths, added, ok_bind]
      simp only [date] at step
      exact step

end TimeForm

end Reckon

import Reckon.Proofs.Resolution.FirstOccurrence

/-!
# The fields of a resolved date

A partial date whose day is given, with its month if the year is given, resolves to a date that has
all of its fields. Any other one resolves to the first of a month: a day of a year without the month
is dropped, and so is a weekday without a day.
-/

set_option autoImplicit false

namespace Reckon

open Sequencing Moment Zone

namespace PartialDate

/-- The day is given, and its month if the year is: the dates that are looked up by their day. -/
def NamesDay (p : PartialDate) : Prop :=
  p.day.isSome = true ∧ (p.year.isSome = true → p.month.isSome = true)

/-- The first of a month: of January, unless another month is given. -/
structure Opens (p : PartialDate) (d : Date) : Prop where
  proper : d.Proper
  year : ∀ year ∈ p.year, d.year = year
  month : d.month = TimeForm.openingMonth p.month
  day : d.day = 1

theorem Opens.matches_iff {p : PartialDate} {d : Date} (opens : p.Opens d) :
    p.Matches d ↔ p.month ≠ some 0 ∧ (∀ day ∈ p.day, day = 1) ∧
      ∀ weekday ∈ p.weekday, d.weekday = weekday := by
  have month := opens.month
  constructor
  · intro fields
    refine ⟨?_, ?_, fields.weekday⟩
    · intro zero
      have same := fields.month 0 zero
      rw [month, zero] at same
      exact absurd same (by decide)
    · intro day given
      rw [← fields.day day given, opens.day]
  · intro fields
    obtain ⟨notZero, first, weekday⟩ := fields
    refine ⟨opens.proper, opens.year, ?_, ?_, weekday⟩
    · intro other given
      rw [Option.mem_def.mp given] at month notZero
      rw [month, TimeForm.openingMonth, if_neg]
      intro zero
      exact notZero (congrArg some zero)
    · intro day given
      rw [opens.day, first day given]

end PartialDate

namespace TimeForm

variable {z : Zone} {ref m : Moment} {weekday : Option Int}

theorem of_date?_date (regular : z.Regular) (d : Date) :
    FindsOnly (fun m => m.date = d ∧ d.Proper) (ofDate? z d) := by
  unfold ofDate?
  split
  · apply yields_ok
    intro m found
    split at found
    · rename_i valid
      have proper := ((Date.is_valid_iff d).mp valid).2
      cases found
      exact ⟨date_midnight_of regular proper, proper⟩
    · cases found
  · exact yields_error _ _

theorem of_date_date (regular : z.Regular) (d : Date) :
    Yields (fun m => m.date = d ∧ d.Proper) (ofDate z d) :=
  of_date_yields (of_date?_date regular d)

theorem weekday_of_is_upcoming {today : Moment} (upcoming : isUpcoming today weekday m = true) :
    ∀ wanted ∈ weekday, m.weekday = wanted := by
  intro wanted given
  rw [Option.mem_def.mp given, isUpcoming, Bool.and_eq_true] at upcoming
  have same : wanted = m.weekday := by simpa using upcoming.2
  exact same.symm

/-- What is found in a search, if anything, has the fields of a partial date. -/
def FindsMatch (p : PartialDate) : Except Failure (Option Moment) → Prop :=
  FindsOnly fun m => p.Matches m.date

theorem consider_match (regular : ref.zone.Regular) {p : PartialDate} {d : Date}
    {rest : Except Failure (Option Moment)}
    (fields : d.Proper → (∀ wanted ∈ weekday, d.weekday = wanted) → p.Matches d)
    (later : FindsMatch p rest) : FindsMatch p (consider ref weekday d rest) := by
  have zone : ref.startOfDay.zone = ref.zone := start_of_day_is_in rfl
  unfold consider
  rw [zone]
  refine yields_bind (of_date?_date regular d) fun found dated => ?_
  cases found with
  | none => exact later
  | some m =>
      simp only
      split
      · rename_i upcoming
        apply yields_ok
        intro taken same
        cases same
        have onDate := (dated m rfl).1
        have wanted := weekday_of_is_upcoming upcoming
        rw [m.weekday_eq, onDate] at wanted
        rw [onDate]
        exact fields (dated m rfl).2 wanted
      · exact later

theorem search_years_match (regular : ref.zone.Regular) (month day : Int) (count : Nat)
    (year : Int) : FindsMatch { month := some month, day := some day, weekday }
      (searchYears ref.startOfDay month day weekday count year) := by
  induction count generalizing year with
  | zero => exact yields_ok (by simp)
  | succ count ih =>
      apply consider_match (d := ⟨year, month, day⟩) regular
      · intro proper wanted
        exact ⟨proper, by simp, by simp, by simp, wanted⟩
      · exact ih (year + 1)

theorem search_months_match (regular : ref.zone.Regular) (start : Moment) (day : Int)
    (count : Nat) (index : Int) : FindsMatch { day := some day, weekday }
      (searchMonths ref.startOfDay start day weekday count index) := by
  induction count generalizing index with
  | zero => exact yields_ok (by simp)
  | succ count ih =>
      rw [searchMonths]
      refine yields_bind (Q := fun _ => True) (fun _ _ => trivial) fun month _ => ?_
      apply consider_match (d := ⟨month.date.year, month.date.month, day⟩) regular
      · intro proper wanted
        exact ⟨proper, by simp, by simp, by simp, wanted⟩
      · exact ih (index + 1)

theorem found_or_match {p : PartialDate} {search : Except Failure (Option Moment)}
    (finds : FindsMatch p search) (fault : ResolutionFault) :
    Yields (fun m => p.Matches m.date) (foundOr search fault) := by
  unfold foundOr
  refine yields_bind finds fun found fields => ?_
  cases found with
  | none => exact yields_error _ _
  | some m => exact yields_ok (fields m rfl)

theorem ground_full_date_match (regular : z.Regular) (d : Date) (weekday : Option Int) :
    Yields (fun m => PartialDate.Matches ⟨some d.year, some d.month, some d.day, weekday⟩ m.date)
      (groundFullDate z d weekday) := by
  unfold groundFullDate
  refine yields_bind (of_date?_date regular d) fun found dated => ?_
  cases found with
  | none => exact yields_error _ _
  | some m =>
      obtain ⟨onDate, proper⟩ := dated m rfl
      cases weekday with
      | none =>
          apply yields_ok
          rw [onDate]
          exact ⟨proper, by simp, by simp, by simp, by simp⟩
      | some wanted =>
          simp only
          split
          · rename_i same
            apply yields_ok
            rw [m.weekday_eq, onDate] at same
            rw [onDate]
            exact ⟨proper, by simp, by simp, by simp, by simp [same]⟩
          · exact yields_error _ _

theorem ground_calendar_match (regular : ref.zone.Regular) {p : PartialDate} (day : p.NamesDay) :
    Yields (fun m => p.Matches m.date) (groundCalendar p ref) := by
  obtain ⟨given, dated⟩ := day
  obtain ⟨year, month, day, weekday⟩ := p
  cases day with
  | none => exact absurd given (by simp)
  | some d =>
      cases month with
      | some month =>
          cases year with
          | some year => exact ground_full_date_match regular ⟨year, month, d⟩ weekday
          | none =>
              rw [ground_calendar_year]
              exact found_or_match (search_years_match regular month d _ _) _
      | none =>
          cases year with
          | some year => exact absurd (dated rfl) (by simp)
          | none =>
              rw [ground_calendar_month]
              exact found_or_match (search_months_match regular _ d _ _) _

theorem ground_calendar_opens (regular : ref.zone.Regular) {p : PartialDate}
    (other : ¬ p.NamesDay) : Yields (fun m => p.Opens m.date) (groundCalendar p ref) := by
  obtain ⟨year, month, day, weekday⟩ := p
  unfold groundCalendar
  simp only
  split
  · exact absurd ⟨rfl, fun _ => rfl⟩ other
  · intro m found
    obtain ⟨onDate, proper⟩ := of_date_date regular _ m found
    rw [onDate]
    exact ⟨proper, by simp, rfl, rfl⟩
  · exact absurd ⟨rfl, fun _ => rfl⟩ other
  · rename_i month
    intro m found
    obtain ⟨onDate, proper⟩ := of_date_date regular _ m found
    have positive : 1 ≤ month := proper.month.1
    have same : openingMonth (some month) = month := if_neg (by omega)
    rw [onDate]
    exact ⟨proper, by simp, same.symm, rfl⟩
  · exact absurd ⟨rfl, fun given => absurd given (by simp)⟩ other
  · exact yields_error _ _

/-- A date that is returned has all the fields that are given, if these give the day, and its month
with the year. Otherwise it is the first of a month of the given year: no weekday is looked for, a
day of a year is dropped, and month 0 of a year is January. The grain is that of a day whenever a
day is given. -/
theorem ground_calendar_fields (c : Context) (p : PartialDate) (ref m : Moment) (grain : Grain)
    (regular : ref.zone.Regular)
    (ran : (calendar p).ground c ref = .ok (m, grain)) :
    (p.NamesDay → p.Matches m.date) ∧
    (¬ p.NamesDay → p.Opens m.date ∧
      (p.Matches m.date ↔ p.month ≠ some 0 ∧ (∀ day ∈ p.day, day = 1) ∧
        ∀ weekday ∈ p.weekday, m.weekday = weekday)) ∧
    (grain = .day ↔ p.day.isSome = true) := by
  rw [ground] at ran
  obtain ⟨found, grounds, same⟩ := (bind_ok_iff _ _ _).mp ran
  cases same
  refine ⟨?_, ?_, ?_⟩
  · intro day
    exact ground_calendar_match regular day m grounds
  · intro other
    have opens := ground_calendar_opens regular other m grounds
    rw [m.weekday_eq]
    exact ⟨opens, opens.matches_iff⟩
  · rw [PartialDate.grain]
    split
    · simp [*]
    · split
      · simp [*]
      · simp [*]

/-- From February 2013 on, 12 May is a Friday first in 2017. -/
theorem may_friday_fields : Context.training.now.zone.Regular ∧
    PartialDate.NamesDay { month := some 5, day := some 12, weekday := some 4 } ∧
    ∃ m, (calendar { month := some 5, day := some 12, weekday := some 4 }).ground Context.training
        Context.training.now = .ok (m, .day) ∧
      PartialDate.Matches { month := some 5, day := some 12, weekday := some 4 } m.date := by
  have regular : Context.training.now.zone.Regular := regular_of_fixed "UTC" (by decide)
  have day : PartialDate.NamesDay { month := some 5, day := some 12, weekday := some 4 } :=
    ⟨rfl, fun _ => rfl⟩
  have ran : (calendar { month := some 5, day := some 12, weekday := some 4 }).ground
      Context.training Context.training.now =
        .ok (⟨Zone.utc, LocalTime.midnight ⟨2017, 5, 12⟩, true⟩, .day) :=
    ok_of_to_option (by decide +kernel)
  exact ⟨regular, day, _, ran, (ground_calendar_fields _ _ _ _ _ regular ran).1 day⟩

/-- The twentieth in 2015 comes to New Year of 2015, and a Friday in May to a Wednesday. -/
theorem year_day_dropped :
    (∃ m, (calendar { year := some 2015, day := some 20 }).ground Context.training
        Context.training.now = .ok (m, .day) ∧ m.date = ⟨2015, 1, 1⟩) ∧
      ∃ m, (calendar { month := some 5, weekday := some 4 }).ground Context.training
        Context.training.now = .ok (m, .month) ∧ m.date = ⟨2013, 5, 1⟩ ∧ m.weekday = 2 := by
  constructor
  · exact ⟨⟨Zone.utc, LocalTime.midnight ⟨2015, 1, 1⟩, true⟩, ok_of_to_option (by decide +kernel),
      by decide +kernel⟩
  · exact ⟨⟨Zone.utc, LocalTime.midnight ⟨2013, 5, 1⟩, true⟩, ok_of_to_option (by decide +kernel),
      by decide +kernel⟩

end TimeForm

end Reckon

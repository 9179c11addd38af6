import Reckon.Resolution
import Reckon.Proofs.Clock.Zones

/-!
# What a form is grounded to

The moment of a form is in the zone of its reference, and the grain of a form does not depend on the
reference.
-/

set_option autoImplicit false

namespace Reckon.TimeForm

open Sequencing Moment

variable {z : Zone} {ref : Moment}

theorem ground_day_of_week_is_in (inside : ref.IsIn z) (weekday : Int)
    (direction : Option Direction) :
    Yields (IsIn z) (groundDayOfWeek weekday direction ref) := by
  unfold groundDayOfWeek
  simp only
  split
  · exact add_is_in (start_of_day_is_in inside) .day _
  · exact add_is_in (start_of_day_is_in inside) .day _

/-- What is found in a search, if anything, has a property. -/
def FindsOnly (P : Moment → Prop) : Except Failure (Option Moment) → Prop :=
  Yields fun found => ∀ m ∈ found, P m

variable {P : Moment → Prop}

theorem finds_only_none : FindsOnly P (.ok none) :=
  yields_ok (by simp)

theorem finds_only_some {m : Moment} (holds : P m) : FindsOnly P (.ok (some m)) :=
  yields_ok fun _ same => Option.some.inj same ▸ holds

/-! A search by dates finds one of them, so that it has what all midnights of dates have. -/

theorem search_years_finds_only (dates : ∀ d, FindsOnly P (ofDate? ref.zone d)) (month day : Int)
    (weekday : Option Int) (count : Nat) (year : Int) :
    FindsOnly P (searchYears ref month day weekday count year) := by
  induction count generalizing year with
  | zero => exact finds_only_none
  | succ count ih =>
      rw [searchYears]
      refine yields_bind (dates _) fun found here => ?_
      cases found with
      | none => exact ih _
      | some m =>
          simp only
          split
          · exact finds_only_some (here m rfl)
          · exact ih _

theorem search_months_finds_only (dates : ∀ d, FindsOnly P (ofDate? ref.zone d))
    (monthStart : Moment)
    (day : Int) (weekday : Option Int) (count : Nat) (index : Int) :
    FindsOnly P (searchMonths ref monthStart day weekday count index) := by
  induction count generalizing index with
  | zero => exact finds_only_none
  | succ count ih =>
      rw [searchMonths]
      refine yields_bind (Q := fun _ => True) (fun _ _ => trivial) fun start _ => ?_
      refine yields_bind (dates _) fun found here => ?_
      cases found with
      | none => exact ih _
      | some m =>
          simp only
          split
          · exact finds_only_some (here m rfl)
          · exact ih _

theorem of_date_yields {d : Date} (dated : FindsOnly P (ofDate? z d)) : Yields P (ofDate z d) := by
  unfold ofDate
  refine yields_bind dated fun found here => ?_
  cases found with
  | none => exact yields_error _ _
  | some m => exact yields_ok (here m rfl)

theorem ground_full_date_yields {d : Date} (dated : FindsOnly P (ofDate? z d))
    (weekday : Option Int) : Yields P (groundFullDate z d weekday) := by
  unfold groundFullDate
  refine yields_bind dated fun found here => ?_
  cases found with
  | none => exact yields_error _ _
  | some m =>
      cases weekday with
      | none => exact yields_ok (here m rfl)
      | some wanted =>
          simp only
          split
          · exact yields_ok (here m rfl)
          · exact yields_error _ _

theorem found_yields {search : Except Failure (Option Moment)} (finds : FindsOnly P search)
    (fault : ResolutionFault) :
    Yields P (search >>= fun found =>
      match found with
      | some m => return m
      | none => resolutionFault fault) := by
  refine yields_bind finds fun found here => ?_
  cases found with
  | none => exact yields_error _ _
  | some m => exact yields_ok (here m rfl)

theorem ground_calendar_yields (dates : ∀ d, FindsOnly P (ofDate? ref.zone d)) (p : PartialDate) :
    Yields P (groundCalendar p ref) := by
  have today : ref.startOfDay.zone = ref.zone := start_of_day_is_in rfl
  have counted : ∀ d, FindsOnly P (ofDate? ref.startOfDay.zone d) := today.symm ▸ dates
  unfold groundCalendar
  simp only
  split
  · exact ground_full_date_yields (dates _) _
  · exact of_date_yields (dates _)
  · exact found_yields (search_years_finds_only counted _ _ _ _ _) _
  · exact of_date_yields (dates _)
  · refine yields_bind (Q := fun _ => True) (fun _ _ => trivial) fun monthStart _ => ?_
    exact found_yields (search_months_finds_only counted _ _ _ _ _) _
  · exact yields_error _ _

theorem earliest?_mem {moments : List Moment} {m : Moment} (found : earliest? moments = some m) :
    m ∈ moments := by
  have among : ∀ (rest : List Moment) (best : Moment),
      rest.foldl (fun best next => if next.isBefore best then next else best) best ∈
        best :: rest := by
    intro rest
    induction rest with
    | nil => simp
    | cons next rest ih =>
        intro best
        rw [List.foldl_cons]
        split
        · exact List.mem_cons_of_mem _ (ih next)
        · rcases List.mem_cons.mp (ih best) with same | later
          · rw [same]
            exact List.mem_cons_self
          · exact List.mem_cons_of_mem _ (List.mem_cons_of_mem _ later)
  cases moments with
  | nil => cases found
  | cons first rest => exact Option.some.inj found ▸ among rest first

theorem reading_on_yields {t : ClockTime} {day : Moment} (times : ∀ hour, Yields P
    (day.setTime hour t.minute day.reading.second day.reading.microsecond)) (floor : Moment) :
    FindsOnly P (readingOn t floor day) := by
  unfold readingOn
  refine yields_bind (yields_map_m fun hour _ => times hour) fun options within => ?_
  apply yields_ok
  intro m found
  exact within m (List.mem_filter.mp (earliest?_mem found)).1

/-- A time of day is read on a day that is counted from today's midnight. -/
theorem ground_time_of_day_yields {t : ClockTime} (days : ∀ n, Yields
    (fun day => ∀ floor, FindsOnly P (readingOn t floor day)) (ref.startOfDay.add .day n)) :
    Yields P (groundTimeOfDay t ref) := by
  unfold groundTimeOfDay
  refine yields_bind (Q := fun _ => True) (fun _ _ => trivial) fun floor _ => ?_
  refine yields_bind (days 0) fun day here => ?_
  refine yields_bind (here floor) fun found within => ?_
  cases found with
  | some m => exact yields_ok (within m rfl)
  | none =>
      refine yields_bind (days 1) fun next there => ?_
      exact found_yields (there floor) _

theorem ground_time_of_day_is_in (inside : ref.IsIn z) (t : ClockTime) :
    Yields (IsIn z) (groundTimeOfDay t ref) :=
  ground_time_of_day_yields fun n day added =>
    reading_on_yields fun _ =>
      set_time_is_in (add_is_in (start_of_day_is_in inside) .day n day added) _ _ _ _

theorem add_period_is_in {m : Moment} (inside : m.IsIn z) (sign : Int) (period : Period) :
    Yields (IsIn z) (addPeriod sign period m) := by
  induction period generalizing m with
  | nil => exact yields_ok inside
  | cons part rest ih =>
      obtain ⟨grain, n⟩ := part
      rw [addPeriod]
      exact yields_bind (add_is_in inside grain _) fun next here => ih here

/-- The grain of a form that can be grounded. -/
def grain? (c : Context) : TimeForm → Option Grain
  | now => some c.defaultGrain
  | relative grain _ => some grain
  | dayOfWeek _ _ => some .day
  | calendar date => some date.grain
  | timeOfDay time | timed _ time => some time.grain
  | shift period _ =>
    period.finest?.map fun finest => if Grain.day.size ≤ finest.size then .day else finest
  | interval _ _ | unknown _ => none

/-- What a form is grounded to, from a reference in a zone. -/
structure Grounds (c : Context) (z : Zone) (form : TimeForm) (grounded : Grounded) : Prop where
  zone : grounded.1.IsIn z
  grain : form.grain? c = some grounded.2

theorem ground_shift_grounds (inside : ref.IsIn z) (c : Context) (period : Period) (sign : Int) :
    Yields (Grounds c z (.shift period sign)) (groundShift period sign ref) := by
  unfold groundShift
  refine yields_bind (add_period_is_in inside sign period) fun m here => ?_
  cases finest : period.finest? with
  | none => exact yields_error _ _
  | some finest =>
      simp only
      split
      · rename_i long
        exact yields_ok ⟨start_of_day_is_in here, by simp [grain?, *]⟩
      · rename_i short
        refine yields_bind (start_of_is_in here .second 0) fun start there => ?_
        exact yields_ok ⟨there, by simp [grain?, *]⟩

theorem ground_grounds (c : Context) (form : TimeForm) (inside : ref.IsIn z) :
    Yields (Grounds c z form) (form.ground c ref) := by
  induction form with
  | now =>
      rw [ground]
      exact yields_bind (start_of_is_in inside _ _) fun m here => yields_ok ⟨here, rfl⟩
  | relative grain offset =>
      rw [ground]
      refine yields_bind (start_of_is_in inside _ _) fun m here => ?_
      exact yields_bind (add_is_in here _ _) fun m there => yields_ok ⟨there, rfl⟩
  | dayOfWeek weekday direction =>
      rw [ground]
      exact yields_bind (ground_day_of_week_is_in inside _ _) fun m here => yields_ok ⟨here, rfl⟩
  | calendar date =>
      rw [ground]
      have dates : ∀ d, FindsOnly (IsIn z) (ofDate? ref.zone d) := inside ▸ of_date?_is_in ref.zone
      exact yields_bind (ground_calendar_yields dates _) fun m here => yields_ok ⟨here, rfl⟩
  | timeOfDay time =>
      rw [ground]
      exact yields_bind (ground_time_of_day_is_in inside _) fun m here => yields_ok ⟨here, rfl⟩
  | timed date time ih =>
      rw [ground]
      refine yields_bind ih fun grounded day => ?_
      simp only
      split
      · exact yields_error _ _
      · exact yields_bind (set_time_is_in day.zone _ _ _ _) fun m here => yields_ok ⟨here, rfl⟩
  | shift period sign => exact ground_shift_grounds inside c period sign
  | interval start stop => exact yields_error _ _
  | unknown typeName => exact yields_error _ _

end Reckon.TimeForm

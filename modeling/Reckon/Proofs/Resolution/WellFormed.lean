import Reckon.Resolution
import Reckon.Proofs.Sequencing

/-!
# Well-formed values and what resolution says of them

Values are well-formed if their times are times of day, their dates have parts that go together,
their periods count something, and forms are nested only as resolution can ground them. Resolving a
well-formed value may fail, but never with a fault that blames the value: those are all coercion
faults and the resolution faults for forms that are not to be grounded.
-/

set_option autoImplicit false

namespace Reckon

open Sequencing

structure ClockTime.WellFormed (t : ClockTime) : Prop where
  hour : 0 ≤ t.hour ∧ t.hour ≤ 23
  minute : 0 ≤ t.minute ∧ t.minute ≤ 59
  ambiguous : t.ambiguous = true → 1 ≤ t.hour ∧ t.hour ≤ 12

structure PartialDate.WellFormed (d : PartialDate) : Prop where
  month : ∀ m, d.month = some m → 1 ≤ m ∧ m ≤ 12
  day : ∀ n, d.day = some n → 1 ≤ n ∧ n ≤ 31
  weekday : ∀ w, d.weekday = some w → (0 ≤ w ∧ w ≤ 6) ∧ d.day.isSome = true
  connected : d.year.isSome = true → d.day.isSome = true → d.month.isSome = true
  given : d.year.isSome = true ∨ d.month.isSome = true ∨ d.day.isSome = true

structure Period.WellFormed (period : Period) : Prop where
  nonempty : period ≠ []
  counts : ∀ part ∈ period, 0 ≤ part.2

namespace TimeForm

/-- Forms that a time can be put on. -/
def NamesDay : TimeForm → Prop
  | dayOfWeek _ _ => True
  | relative grain _ => grain = .day
  | calendar date => date.day.isSome = true
  | now | timeOfDay _ | timed _ _ | shift _ _ | interval _ _ | unknown _ => False

def IsInterval : TimeForm → Prop
  | interval _ _ => True
  | now | relative _ _ | dayOfWeek _ _ | calendar _ | timeOfDay _ | timed _ _ | shift _ _
  | unknown _ => False

def WellFormed : TimeForm → Prop
  | now | relative _ _ => True
  | dayOfWeek weekday _ => 0 ≤ weekday ∧ weekday ≤ 6
  | calendar date => date.WellFormed
  | timeOfDay time => time.WellFormed
  | timed date time => date.NamesDay ∧ date.WellFormed ∧ time.WellFormed
  | shift period _ => period.WellFormed
  | interval start stop =>
    (¬start.IsInterval ∧ start.WellFormed) ∧ ¬stop.IsInterval ∧ stop.WellFormed
  | unknown _ => False

end TimeForm

/-- A number that is not a truth value, a duration that counts something, a well-formed time, or a
value of another known type. -/
def Value.WellFormed : Value → Prop
  | .number v => ∀ b, v.value ≠ .truth b
  | .duration v => v.period.WellFormed
  | .datetime v => v.form.WellFormed
  | .unknown _ _ => False
  | .ordinal _ | .percentage _ | .temperature _ | .money _ | .timeGrain _ | .moneyUnit _ => True

/-- Faults that a value cannot be read at all, whatever the context. -/
def Failure.blamesValue : Failure → Bool
  | .coercion _ => true
  | .resolution .nestedInterval | .resolution (.unknownForm _) | .resolution (.notADay _)
  | .resolution .emptyCalendar => true
  | _ => false

/-- Failures that lie in the context, or in the range of numbers and dates. -/
def Failure.isExcusable : Failure → Bool
  | .outOfRange => true
  | .resolution fault => !(Failure.resolution fault).blamesValue
  | _ => false

theorem Failure.is_excusable_iff (failure : Failure) :
    failure.isExcusable = true ↔ failure = .outOfRange ∨
      ∃ fault, failure = .resolution fault ∧ failure.blamesValue = false := by
  cases failure <;> simp [isExcusable, blamesValue]

/-- A computation that does not fail by blaming a value. -/
def Blameless {α : Type} (result : Except Failure α) : Prop :=
  ∀ failure, result = .error failure → failure.blamesValue = false

/-- A computation that fails only where it can be excused. -/
def Excused {α : Type} (result : Except Failure α) : Prop :=
  ∀ failure, result = .error failure → failure.isExcusable = true

theorem Excused.blameless {α : Type} {result : Except Failure α} (excused : Excused result) :
    Blameless result := by
  intro failure failed
  rcases (failure.is_excusable_iff).mp (excused failure failed) with rfl | ⟨fault, -, plain⟩
  · rfl
  · exact plain

section Excused

variable {α β : Type}

theorem excused_ok (value : α) : Excused (.ok value : Except Failure α) := by
  intro failure failed
  cases failed

theorem excused_error {failure : Failure} (plain : failure.isExcusable = true) :
    Excused (.error failure : Except Failure α) := by
  intro other failed
  cases failed
  exact plain

theorem excused_bind {first : Except Failure α} {next : α → Except Failure β}
    (head : Excused first) (tail : ∀ value, first = .ok value → Excused (next value)) :
    Excused (first >>= next) := by
  intro failure failed
  rcases (bind_error_iff _ _ _).mp failed with here | ⟨value, returned, later⟩
  · exact head failure here
  · exact tail value returned failure later

theorem excused_map_m {f : α → Except Failure β} {inputs : List α}
    (each : ∀ input ∈ inputs, Excused (f input)) : Excused (inputs.mapM f) := by
  induction inputs with
  | nil => exact excused_ok []
  | cons input inputs ih =>
      rw [List.mapM_cons]
      apply excused_bind (each input List.mem_cons_self)
      intro output _
      apply excused_bind (ih fun other member => each other (List.mem_cons_of_mem _ member))
      intro outputs _
      exact excused_ok _

end Excused

/-! Numbers and moments fail only by leaving the range of what can be represented. -/

namespace Numeral

theorem to_float_excused (v : Numeral) : Excused v.toFloat := by
  unfold toFloat
  split
  · exact excused_ok _
  · split
    · exact excused_ok _
    · exact excused_error rfl
  · exact excused_ok _

theorem to_int_excused (v : Numeral) : Excused v.toInt := by
  unfold toInt
  split
  · exact excused_ok _
  · exact excused_ok _
  · split
    · exact excused_ok _
    · exact excused_error rfl

end Numeral

namespace Moment

theorem of_instant_excused (z : Zone) (instant : Int) : Excused (ofInstant z instant) := by
  unfold ofInstant
  simp only
  split
  · exact excused_ok _
  · exact excused_error rfl

theorem set_time_excused (m : Moment) (hour minute second microsecond : Int) :
    Excused (m.setTime hour minute second microsecond) := by
  unfold setTime
  split
  · exact excused_ok _
  · exact excused_error rfl

theorem of_date?_excused (z : Zone) (d : Date) : Excused (ofDate? z d) := by
  unfold ofDate?
  split
  · exact excused_ok _
  · exact excused_error rfl

theorem of_date_excused (z : Zone) (d : Date) : Excused (ofDate z d) := by
  unfold ofDate
  apply excused_bind (of_date?_excused z d)
  intro found _
  cases found with
  | none => exact excused_error rfl
  | some m => exact excused_ok m

theorem add_elapsed_excused (m : Moment) (ticks : Int) : Excused (m.addElapsed ticks) := by
  unfold addElapsed
  split
  · exact of_instant_excused _ _
  · exact excused_error rfl

theorem add_days_excused (m : Moment) (days : Int) : Excused (m.addDays days) := by
  unfold addDays
  simp only
  split
  · exact excused_ok _
  · exact excused_error rfl

theorem add_months_excused (m : Moment) (years months : Int) :
    Excused (m.addMonths years months) := by
  unfold addMonths
  simp only
  split
  · exact excused_ok _
  · exact excused_error rfl

theorem add_excused (m : Moment) (grain : Grain) (n : Int) : Excused (m.add grain n) := by
  unfold add
  split
  · exact add_elapsed_excused m 0
  · cases grain with
    | second | minute | hour => exact add_elapsed_excused _ _
    | day | week => exact add_days_excused _ _
    | month | year => exact add_months_excused _ _ _

theorem start_of_excused (m : Moment) (grain : Grain) (weekStart : Int) :
    Excused (m.startOf grain weekStart) := by
  cases grain with
  | week => exact add_excused m.startOfDay .day _
  | second | minute | hour | day | month | year => exact excused_ok _

end Moment

/-! Grounding. -/

namespace TimeForm

open Moment

theorem search_years_excused (today : Moment) (month day : Int) (weekday : Option Int)
    (count : Nat) (year : Int) :
    Excused (searchYears today month day weekday count year) := by
  induction count generalizing year with
  | zero => exact excused_ok none
  | succ count ih =>
      rw [searchYears]
      apply excused_bind (of_date?_excused _ _)
      intro found _
      cases found with
      | none => exact ih _
      | some m =>
          simp only
          split
          · exact excused_ok _
          · exact ih _

theorem search_months_excused (today monthStart : Moment) (day : Int) (weekday : Option Int)
    (count : Nat) (index : Int) :
    Excused (searchMonths today monthStart day weekday count index) := by
  induction count generalizing index with
  | zero => exact excused_ok none
  | succ count ih =>
      rw [searchMonths]
      apply excused_bind (add_excused _ _ _)
      intro start _
      apply excused_bind (of_date?_excused _ _)
      intro found _
      cases found with
      | none => exact ih _
      | some m =>
          simp only
          split
          · exact excused_ok _
          · exact ih _

theorem ground_full_date_excused (zone : Zone) (d : Date) (weekday : Option Int) :
    Excused (groundFullDate zone d weekday) := by
  unfold groundFullDate
  apply excused_bind (of_date?_excused _ _)
  intro found _
  cases found with
  | none => exact excused_error rfl
  | some m =>
      cases weekday with
      | none => exact excused_ok m
      | some wanted =>
          simp only
          split
          · exact excused_ok m
          · exact excused_error rfl

theorem ground_calendar_excused {d : PartialDate} (wellFormed : d.WellFormed) (ref : Moment) :
    Excused (groundCalendar d ref) := by
  have given := wellFormed.given
  unfold groundCalendar
  cases year : d.year with
  | some y =>
      cases month : d.month with
      | none => exact of_date_excused _ _
      | some m =>
          cases day : d.day with
          | none => exact of_date_excused _ _
          | some n => exact ground_full_date_excused _ _ _
  | none =>
      cases month : d.month with
      | some m =>
          cases day : d.day with
          | none => exact of_date_excused _ _
          | some n =>
              apply excused_bind (search_years_excused _ _ _ _ _ _)
              intro found _
              cases found with
              | none => exact excused_error rfl
              | some m => exact excused_ok m
      | none =>
          cases day : d.day with
          | none =>
              rw [year, month, day] at given
              simp at given
          | some n =>
              apply excused_bind (start_of_excused _ _ _)
              intro monthStart _
              apply excused_bind (search_months_excused _ _ _ _ _ _)
              intro found _
              cases found with
              | none => exact excused_error rfl
              | some m => exact excused_ok m

theorem ground_day_of_week_excused (weekday : Int) (direction : Option Direction) (ref : Moment) :
    Excused (groundDayOfWeek weekday direction ref) := by
  unfold groundDayOfWeek
  simp only
  split
  · exact add_excused _ _ _
  · exact add_excused _ _ _

theorem reading_on_excused (t : ClockTime) (floor day : Moment) :
    Excused (readingOn t floor day) := by
  unfold readingOn
  apply excused_bind
  · apply excused_map_m
    intro hour _
    exact set_time_excused _ _ _ _ _
  · intro options _
    exact excused_ok _

theorem ground_time_of_day_excused (t : ClockTime) (ref : Moment) :
    Excused (groundTimeOfDay t ref) := by
  unfold groundTimeOfDay
  apply excused_bind (start_of_excused _ _ _)
  intro floor _
  apply excused_bind (add_excused _ _ _)
  intro today _
  apply excused_bind (reading_on_excused _ _ _)
  intro found _
  cases found with
  | some m => exact excused_ok m
  | none =>
      apply excused_bind (add_excused _ _ _)
      intro tomorrow _
      apply excused_bind (reading_on_excused _ _ _)
      intro later _
      cases later with
      | some m => exact excused_ok m
      | none => exact excused_error rfl

theorem add_period_excused (sign : Int) (period : Period) (m : Moment) :
    Excused (addPeriod sign period m) := by
  induction period generalizing m with
  | nil => exact excused_ok m
  | cons part rest ih =>
      rw [addPeriod]
      apply excused_bind (add_excused _ _ _)
      intro next _
      exact ih next

theorem ground_shift_excused (period : Period) (sign : Int) (ref : Moment) :
    Excused (groundShift period sign ref) := by
  unfold groundShift
  apply excused_bind (add_period_excused _ _ _)
  intro m _
  cases period.finest? with
  | none => exact excused_error rfl
  | some finest =>
      simp only
      split
      · exact excused_ok _
      · apply excused_bind (start_of_excused _ _ _)
        intro start _
        exact excused_ok _

theorem ground_day {c : Context} {form : TimeForm} {ref m : Moment} {grain : Grain}
    (names : form.NamesDay) (ran : form.ground c ref = .ok (m, grain)) : grain = .day := by
  cases form with
  | dayOfWeek weekday direction =>
      obtain ⟨day, -, made⟩ := (bind_ok_iff _ _ _).mp ran
      cases made
      rfl
  | relative own offset =>
      obtain ⟨start, -, rest⟩ := (bind_ok_iff _ _ _).mp ran
      obtain ⟨moved, -, made⟩ := (bind_ok_iff _ _ _).mp rest
      cases made
      exact names
  | calendar date =>
      obtain ⟨day, -, made⟩ := (bind_ok_iff _ _ _).mp ran
      cases made
      have given : date.day.isSome = true := names
      rw [PartialDate.grain, if_pos given]
  | now | timeOfDay _ | timed _ _ | shift _ _ | interval _ _ | unknown _ => exact names.elim

theorem ground_excused (c : Context) {form : TimeForm} (wellFormed : form.WellFormed)
    (single : ¬form.IsInterval) (ref : Moment) : Excused (form.ground c ref) := by
  induction form generalizing ref with
  | now =>
      apply excused_bind (start_of_excused _ _ _)
      intro m _
      exact excused_ok _
  | relative grain offset =>
      apply excused_bind (start_of_excused _ _ _)
      intro start _
      apply excused_bind (add_excused _ _ _)
      intro m _
      exact excused_ok _
  | dayOfWeek weekday direction =>
      apply excused_bind (ground_day_of_week_excused _ _ _)
      intro m _
      exact excused_ok _
  | calendar date =>
      apply excused_bind (ground_calendar_excused wellFormed _)
      intro m _
      exact excused_ok _
  | timeOfDay time =>
      apply excused_bind (ground_time_of_day_excused _ _)
      intro m _
      exact excused_ok _
  | timed date time ih =>
      obtain ⟨names, wellFormedDate, -⟩ := wellFormed
      have single : ¬date.IsInterval := by
        cases date <;> simp_all [NamesDay, IsInterval]
      apply excused_bind (ih wellFormedDate single ref)
      rintro ⟨day, grain⟩ grounded
      have isDay := ground_day names grounded
      simp only [isDay, ne_eq, not_true_eq_false, if_false]
      apply excused_bind (set_time_excused _ _ _ _ _)
      intro m _
      exact excused_ok _
  | shift period sign => exact ground_shift_excused _ _ _
  | interval start stop _ _ => exact absurd trivial single
  | unknown typeName => exact wellFormed.elim

end TimeForm

namespace Value

theorem resolve_datetime_excused (c : Context) {v : DatetimeValue}
    (wellFormed : v.form.WellFormed) : Excused (resolveDatetime c v) := by
  unfold resolveDatetime
  split
  · rename_i start stop form
    rw [form] at wellFormed
    obtain ⟨⟨singleStart, wellFormedStart⟩, singleStop, wellFormedStop⟩ := wellFormed
    unfold resolveInterval
    apply excused_bind (TimeForm.ground_excused c wellFormedStart singleStart _)
    rintro ⟨first, firstGrain⟩ _
    apply excused_bind (TimeForm.ground_excused c wellFormedStop singleStop _)
    rintro ⟨last, lastGrain⟩ _
    simp only
    split
    · exact excused_error rfl
    · exact excused_ok _
  · rename_i form single
    have notInterval : ¬v.form.IsInterval := by
      intro interval
      cases known : v.form with
      | interval start stop => exact single start stop known
      | _ => rw [known] at interval; exact interval
    apply excused_bind (TimeForm.ground_excused c wellFormed notInterval _)
    rintro ⟨m, grain⟩ _
    exact excused_ok _

/-- Resolving a well-formed value under the kind of its dimension fails only for reasons that lie in
the context or in the range of numbers and dates. -/
theorem resolve_excused {v : Value} (wellFormed : v.WellFormed) {kind : Kind}
    (own : v.dimension? = some kind.dimension) (c : Context) : Excused (v.resolve kind c) := by
  unfold resolve
  rw [if_pos own]
  cases v with
  | number v =>
      simp only [read]
      cases number : v.value with
      | truth b => exact absurd number (wellFormed b)
      | int n => exact excused_ok _
      | float x => exact excused_ok _
  | ordinal v =>
      apply excused_bind (Numeral.to_int_excused _)
      intro n _
      exact excused_ok _
  | percentage v | temperature v | money v =>
      apply excused_bind (Numeral.to_float_excused _)
      intro x _
      exact excused_ok _
  | duration v =>
      have period : v.period.WellFormed := wellFormed
      have nonempty : v.period.isEmpty = false := by simpa using period.nonempty
      simp only [read, nonempty]
      exact excused_ok _
  | datetime v => exact resolve_datetime_excused c wellFormed
  | timeGrain v | moneyUnit v =>
      cases kind <;> simp [dimension?, Kind.dimension] at own
  | unknown typeName dimension => exact wellFormed.elim

/-- Resolving a well-formed value under the kind of its dimension does not blame the value. -/
theorem resolve_blameless {v : Value} (wellFormed : v.WellFormed) {kind : Kind}
    (own : v.dimension? = some kind.dimension) (c : Context) : Blameless (v.resolve kind c) :=
  (resolve_excused wellFormed own c).blameless

end Value

end Reckon

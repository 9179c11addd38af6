import Reckon.English.Datetimes
import Reckon.Proofs.English.Dimensions
import Reckon.Proofs.English.Quantities
import Reckon.Proofs.Pattern.Spelling
import Reckon.Proofs.Text.Digits

/-!
# Times are well-formed

Clock times are read from digits that cannot write more than 23 hours or 59 minutes. Dates take
their parts from tables, from numbers that were checked, or from dates that exist, and forms are
nested only under the tests that allow it.
-/

set_option autoImplicit false

namespace Reckon.English.Datetimes

open Forest Sequencing
open Pattern (Spells)

/-! Clock digits. -/

theorem spells_digit {cs : List Char} (spells : Spells .digit cs) :
    ∃ c value, cs = [c] ∧ Text.digitValue? c = some value ∧ value < 10 := by
  cases spells with
  | @one cls c accepted =>
      have digit : (Text.digitValue? c).isSome = true := accepted
      obtain ⟨value, known⟩ := Option.isSome_iff_exists.mp digit
      exact ⟨c, value, rfl, known, Text.digit_value_lt known⟩

theorem spells_between {low high : Char} {cs : List Char} (bottom : '0' ≤ low) (top : high ≤ '9')
    (spells : Spells (.one (.between low high)) cs) :
    ∃ c value, cs = [c] ∧ Text.digitValue? c = some value ∧ value ≤ high.toNat - 48 := by
  cases spells with
  | @one cls c accepted =>
      simp only [CharClass.accepts, Bool.and_eq_true, decide_eq_true_eq] at accepted
      obtain ⟨value, known, bound⟩ := Text.digit_value_between bottom top accepted.1 accepted.2
      exact ⟨c, value, rfl, known, bound⟩

theorem read_nat_pair {c d : Char} {tens unit : Nat} (first : Text.digitValue? c = some tens)
    (second : Text.digitValue? d = some unit) : Text.readNat ([c] ++ [d]) = 10 * tens + unit := by
  rw [Text.read_nat_append_digit _ second, Text.read_nat_digit first]

theorem hour_digits_le {cs : List Char} (spells : Spells hourDigits cs) : Text.readNat cs ≤ 23 := by
  cases spells with
  | altFirst here =>
      cases here with
      | @seq _ _ left right head tail =>
          obtain ⟨d, unit, same, second, below⟩ := spells_digit tail
          subst same
          cases head with
          | repeated parts each enough bounded =>
              have few := bounded 1 rfl
              cases parts with
              | nil =>
                  simp only [List.flatten_nil, List.nil_append]
                  rw [Text.read_nat_digit second]
                  omega
              | cons part parts =>
                  cases parts with
                  | cons other more =>
                      simp only [List.length_cons] at few
                      omega
                  | nil =>
                      obtain ⟨c, tens, same, first, bound⟩ :=
                        spells_between (by decide) (by decide) (each part List.mem_cons_self)
                      subst same
                      simp only [List.flatten_cons, List.flatten_nil, List.append_nil]
                      rw [read_nat_pair first second]
                      have one : '1'.toNat = 49 := rfl
                      omega
  | altSecond here =>
      cases here with
      | @seq _ _ left right head tail =>
          obtain ⟨d, unit, same, second, bound⟩ := spells_between (by decide) (by decide) tail
          subst same
          cases head with
          | @one cls c accepted =>
              have two : c = '2' := by simpa [CharClass.accepts] using accepted
              subst two
              have first : Text.digitValue? '2' = some 2 := rfl
              rw [read_nat_pair first second]
              have three : '3'.toNat = 51 := rfl
              omega

theorem minute_digits_le {cs : List Char}
    (spells : Spells (.seq (.one (.between '0' '5')) .digit) cs) : Text.readNat cs ≤ 59 := by
  cases spells with
  | @seq _ _ left right head tail =>
      obtain ⟨c, tens, sameLeft, first, bound⟩ := spells_between (by decide) (by decide) head
      obtain ⟨d, unit, sameRight, second, below⟩ := spells_digit tail
      subst sameLeft sameRight
      rw [read_nat_pair first second]
      have five : '5'.toNat = 53 := rfl
      omega

theorem group_number_le {text : Array Char} {p : Pattern} {pos : Nat} {m : Pattern.Match}
    (way : p.MatchesAt text pos m) (index bound : Nat)
    (bodies : ∀ body ∈ Pattern.groupBodies index p, ∀ cs, Spells body cs →
    Text.readNat cs ≤ bound) :
    0 ≤ groupNumber m index ∧ groupNumber m index ≤ bound := by
  unfold groupNumber
  cases held : m.group? index with
  | none =>
      rw [Option.getD_none, Text.read_nat_nil]
      omega
  | some content =>
      obtain ⟨body, inside, spells⟩ := way.group_spells index content held
      have small := bodies body inside content spells
      rw [Option.getD_some]
      omega

theorem on_the_clock_well_formed {hour minute : Int} (hours : 0 ≤ hour ∧ hour ≤ 23)
    (minutes : 0 ≤ minute ∧ minute ≤ 59) : (onTheClock hour minute).WellFormed := by
  refine ⟨hours, minutes, ?_⟩
  intro ambiguous
  simpa [onTheClock] using ambiguous

theorem clock_keeps {name : String} :
    Keeps Value.WellFormed ⟨name, [.text clockDigits], clock⟩ := by
  intro text findings v fits ran
  obtain ⟨x, same, only⟩ := findings_one fits
  obtain ⟨m, first, finds⟩ := fits_text only
  subst same first
  cases ran
  apply on_the_clock_well_formed
  · apply group_number_le finds.way 1 23
    intro body member cs spells
    have bodies : Pattern.groupBodies 1 clockDigits = [hourDigits] := rfl
    rw [bodies, List.mem_singleton] at member
    exact hour_digits_le (member ▸ spells)
  · apply group_number_le finds.way 2 59
    intro body member cs spells
    have bodies : Pattern.groupBodies 2 clockDigits =
        [.seq (.one (.between '0' '5')) .digit] := rfl
    rw [bodies, List.mem_singleton] at member
    exact minute_digits_le (member ▸ spells)

/-! What tests on forms find. -/

section Items

variable {text : Array Char} {x : Finding Value}

theorem fits_calendar {test : PartialDate → Bool}
    (fits : Fits text Value.WellFormed (onCalendar test) x) :
    ∃ v d, x = .value (.datetime v) ∧ v.form = .calendar d ∧ test d = true ∧ d.WellFormed := by
  obtain ⟨v, same, passed, known⟩ := fits_of .datetime fits
  cases form : v.form with
  | calendar d =>
      have wellFormed : v.form.WellFormed := known
      rw [form] at passed wellFormed
      exact ⟨v, d, same, form, passed, wellFormed⟩
  | _ => rw [form] at passed; cases passed

theorem fits_clock {test : DatetimeValue → ClockTime → Bool}
    (fits : Fits text Value.WellFormed (onClock test) x) :
    ∃ v t, x = .value (.datetime v) ∧ v.form = .timeOfDay t ∧ test v t = true ∧ t.WellFormed := by
  obtain ⟨v, same, passed, known⟩ := fits_of .datetime fits
  cases form : v.form with
  | timeOfDay t =>
      have wellFormed : v.form.WellFormed := known
      rw [form] at passed wellFormed
      exact ⟨v, t, same, form, passed, wellFormed⟩
  | _ => rw [form] at passed; cases passed

theorem fits_weekday (fits : Fits text Value.WellFormed plainWeekday x) :
    ∃ v weekday, x = .value (.datetime v) ∧ v.form = .dayOfWeek weekday none ∧
      0 ≤ weekday ∧ weekday ≤ 6 := by
  obtain ⟨v, same, passed, known⟩ := fits_of .datetime fits
  cases form : v.form with
  | dayOfWeek weekday direction =>
      have wellFormed : v.form.WellFormed := known
      rw [form] at passed wellFormed
      cases direction with
      | none => exact ⟨v, weekday, same, form, wellFormed⟩
      | some direction => cases passed
  | _ => rw [form] at passed; cases passed

theorem fits_year (fits : Fits text Value.WellFormed year x) :
    ∃ n y, x = .value (.number n) ∧ n.value.int? = some y := by
  obtain ⟨n, same, passed, -⟩ := fits_of .number fits
  have between := (Bool.and_eq_true_iff.mp passed).2
  unfold isIntBetween at between
  split at between
  · rename_i y whole
    exact ⟨n, y, same, whole⟩
  · cases between

theorem fits_day_form (fits : Fits text Value.WellFormed dayForm x) :
    ∃ v, x = .value (.datetime v) ∧ v.form.NamesDay ∧ v.form.WellFormed := by
  obtain ⟨v, same, passed, known⟩ := fits_of .datetime fits
  refine ⟨v, same, ?_, known⟩
  cases form : v.form with
  | dayOfWeek weekday direction => trivial
  | relative grain offset =>
      rw [form] at passed
      exact beq_iff_eq.mp passed
  | calendar d =>
      rw [form] at passed
      exact passed
  | _ => rw [form] at passed; cases passed

theorem fits_point_form (fits : Fits text Value.WellFormed pointForm x) :
    ∃ v, x = .value (.datetime v) ∧ ¬v.form.IsInterval ∧ v.form.WellFormed := by
  obtain ⟨v, same, passed, known⟩ := fits_of .datetime fits
  refine ⟨v, same, ?_, known⟩
  intro interval
  cases form : v.form with
  | interval start stop => rw [form] at passed; cases passed
  | _ => rw [form] at interval; exact interval

end Items

/-! Parts of dates. -/

theorem day_number?_range {n : Numeral} {day : Int} (known : dayNumber? n = some day) :
    1 ≤ day ∧ day ≤ 31 := by
  unfold dayNumber? at known
  split at known
  · split at known
    · rename_i range
      cases known
      simpa using range
    · cases known
  · cases known

theorem day_number?_eq {n : Numeral} {day : Int} (known : dayNumber? n = some day) :
    n.int? = some day := by
  unfold dayNumber? at known
  split at known
  · rename_i i whole
    split at known
    · rw [whole, ← known]
    · cases known
  · cases known

theorem day_of?_range {v : Value} (wellFormed : v.WellFormed) {day : Int}
    (known : dayOf? v = some day) : 1 ≤ day ∧ day ≤ 31 := by
  unfold dayOf? at known
  split at known
  · exact day_number?_range known
  · exact day_number?_range known
  · rename_i v
    split at known
    · rename_i d form
      have date : v.form.WellFormed := wellFormed
      rw [form] at date
      split at known
      · exact date.day day known
      · cases known
    · cases known
  · cases known

theorem weekday_of_range {word : List Char} {weekday : Int} (ran : weekdayOf word = .ok weekday) :
    0 ≤ weekday ∧ weekday ≤ 6 := by
  unfold weekdayOf at ran
  split at ran
  · rename_i i found
    cases ran
    obtain ⟨inside, -⟩ := List.findIdx?_eq_some_iff_getElem.mp found
    have seven : Date.weekdayNames.length = 7 := rfl
    omega
  · cases ran

theorem months_range : ∀ entry ∈ months, 1 ≤ entry.2 ∧ entry.2 ≤ 12 := by
  decide

theorem month_and_day_well_formed {month : Int} {day : Option Int} (months : 1 ≤ month ∧ month ≤ 12)
    (days : ∀ n, day = some n → 1 ≤ n ∧ n ≤ 31) :
    PartialDate.WellFormed { month := some month, day := day } := by
  refine ⟨?_, days, by simp, by simp, by simp⟩
  intro m known
  cases known
  exact months

theorem full_date_well_formed {year month day : Int} (months : 1 ≤ month ∧ month ≤ 12)
    (days : 1 ≤ day ∧ day ≤ 31) :
    PartialDate.WellFormed { year := some year, month := some month, day := some day } := by
  refine ⟨?_, ?_, by simp, by simp, by simp⟩
  · intro m known
    cases known
    exact months
  · intro n known
    cases known
    exact days

theorem year_well_formed (year : Int) : PartialDate.WellFormed { year := some year } := by
  refine ⟨by simp, by simp, by simp, by simp, by simp⟩

theorem is_month_and_day_in_range_iff (month day : Int) : isMonthAndDayInRange month day = true ↔
    (1 ≤ month ∧ month ≤ 12) ∧ 1 ≤ day ∧ day ≤ 31 := by
  simp [isMonthAndDayInRange, and_assoc]

theorem month_length_le (year month : Int) : Date.monthLength year month ≤ 31 := by
  unfold Date.monthLength
  rw [List.getD_eq_getElem?_getD]
  cases found : (Date.monthLengths year)[(month - 1).toNat]? with
  | none => simp
  | some length =>
      have member := List.mem_of_getElem? found
      unfold Date.monthLengths at member
      simp only [List.mem_cons, List.not_mem_nil, or_false] at member
      rw [Option.getD_some]
      split at member <;> omega

theorem is_valid_range {d : Date} (valid : d.isValid = true) :
    (1 ≤ d.month ∧ d.month ≤ 12) ∧ 1 ≤ d.day ∧ d.day ≤ 31 := by
  have length := month_length_le d.year d.month
  simp only [Date.isValid, Bool.and_eq_true, decide_eq_true_eq] at valid
  omega

/-- The usual reading of a date finds only dates that exist. -/
theorem read_slash_date_valid {cs : List Char} {d : Date} (found : readSlashDate cs = some d) :
    d.isValid = true := by
  unfold readSlashDate datePlaced? at found
  obtain ⟨placed, -, rest⟩ := Option.bind_eq_some_iff.mp found
  obtain ⟨year, -, rest⟩ := Option.bind_eq_some_iff.mp rest
  obtain ⟨month, -, rest⟩ := Option.bind_eq_some_iff.mp rest
  obtain ⟨day, -, made⟩ := Option.bind_eq_some_iff.mp rest
  simp only at made
  split at made
  · rename_i valid
    cases made
    exact valid
  · cases made

/-! Days and dates. -/

theorem now_made (findings : List (Finding Value)) (v : Value)
    (ran : now findings = .ok (some v)) : v.WellFormed := by
  cases ran
  trivial

theorem relative_day_made (findings : List (Finding Value)) (v : Value)
    (ran : relativeDay findings = .ok (some v)) : v.WellFormed := by
  unfold relativeDay at ran
  split at ran
  · obtain ⟨offset, -, made⟩ := (bind_ok_iff _ _ _).mp ran
    cases made
    trivial
  · cases ran

theorem relative_grain_made (findings : List (Finding Value)) (v : Value)
    (ran : relativeGrain findings = .ok (some v)) : v.WellFormed := by
  unfold relativeGrain at ran
  split at ran
  · obtain ⟨direction, -, rest⟩ := (bind_ok_iff _ _ _).mp ran
    obtain ⟨grain, -, made⟩ := (bind_ok_iff _ _ _).mp rest
    cases made
    trivial
  · cases ran

theorem day_of_week_made (findings : List (Finding Value)) (v : Value)
    (ran : dayOfWeek findings = .ok (some v)) : v.WellFormed := by
  unfold dayOfWeek at ran
  split at ran
  · obtain ⟨weekday, known, made⟩ := (bind_ok_iff _ _ _).mp ran
    cases made
    exact weekday_of_range known
  · cases ran

theorem directed_day_of_week_keeps {name : String} {p : Pattern} :
    Keeps Value.WellFormed ⟨name, [.text p, plainWeekday], directedDayOfWeek⟩ := by
  intro text findings v fits ran
  obtain ⟨x, y, same, left, right⟩ := findings_two fits
  obtain ⟨m, first, -⟩ := fits_text left
  obtain ⟨w, weekday, second, form, range⟩ := fits_weekday right
  subst same first second
  obtain ⟨direction, -, rest⟩ := (bind_ok_iff _ _ _).mp ran
  rw [form] at rest
  cases rest
  exact range

theorem month_made (findings : List (Finding Value)) (v : Value)
    (ran : month findings = .ok (some v)) : v.WellFormed := by
  unfold month at ran
  split at ran
  · obtain ⟨number, listed, made⟩ := (bind_ok_iff _ _ _).mp ran
    obtain ⟨name, entry⟩ := mem_of_entry_of listed
    cases made
    exact month_and_day_well_formed (months_range _ entry) (by simp)
  · cases ran

theorem the_ordinal_day_keeps {name : String} {p : Pattern} :
    Keeps Value.WellFormed
      ⟨name, [.text p, Test.ordinal fun o => (dayNumber? o.value).isSome], theOrdinalDay⟩ := by
  intro text findings v fits ran
  obtain ⟨x, y, same, left, right⟩ := findings_two fits
  obtain ⟨m, first, -⟩ := fits_text left
  obtain ⟨o, second, passed, -⟩ := fits_of .ordinal right
  subst same first second
  obtain ⟨day, known⟩ := Option.isSome_iff_exists.mp passed
  cases ran
  have range := day_number?_range known
  refine ⟨by simp, ?_, by simp, by simp, by simp [day_number?_eq known]⟩
  intro n given
  rw [day_number?_eq known] at given
  cases given
  exact range

theorem month_of_day_well_formed {c : PartialDate} {d : Value} (monthOnly : isMonthOnly c = true)
    (date : c.WellFormed) (day : d.WellFormed) :
    PartialDate.WellFormed { month := c.month, day := dayOf? d } := by
  simp only [isMonthOnly, Bool.and_eq_true] at monthOnly
  obtain ⟨m, month⟩ := Option.isSome_iff_exists.mp monthOnly.1.1.1
  rw [month]
  exact month_and_day_well_formed (date.month m month) fun n known => day_of?_range day known

theorem month_day_keeps {name : String} :
    Keeps Value.WellFormed ⟨name, [onCalendar isMonthOnly, dayOfMonth], monthDay⟩ := by
  intro text findings v fits ran
  obtain ⟨x, y, same, left, right⟩ := findings_two fits
  obtain ⟨w, c, first, form, monthOnly, date⟩ := fits_calendar left
  obtain ⟨d, second, -, day⟩ := fits_holding right
  subst same first second
  simp only [monthDay, calendar?, form] at ran
  cases ran
  exact month_of_day_well_formed monthOnly date day

theorem day_month_keeps {name : String} {p : Pattern} :
    Keeps Value.WellFormed ⟨name, [dayOfMonth, .text p, onCalendar isMonthOnly], dayMonth⟩ := by
  intro text findings v fits ran
  obtain ⟨x, y, z, same, left, middle, right⟩ := findings_three fits
  obtain ⟨d, first, -, day⟩ := fits_holding left
  obtain ⟨m, between, -⟩ := fits_text middle
  obtain ⟨w, c, second, form, monthOnly, date⟩ := fits_calendar right
  subst same first between second
  simp only [dayMonth, calendar?, form] at ran
  cases ran
  exact month_of_day_well_formed monthOnly date day

theorem with_year_keeps {name : String} {test : PartialDate → Bool}
    (months : ∀ d, test d = true → d.month.isSome = true) :
    Keeps Value.WellFormed ⟨name, [onCalendar test, year], withYear⟩ := by
  intro text findings v fits ran
  obtain ⟨x, y, same, left, right⟩ := findings_two fits
  obtain ⟨w, c, first, form, passed, date⟩ := fits_calendar left
  obtain ⟨n, number, second, -⟩ := fits_year right
  subst same first second
  simp only [withYear, calendar?, form] at ran
  cases ran
  exact ⟨date.month, date.day, date.weekday, fun _ _ => months c passed,
    Or.inr (Or.inl (months c passed))⟩

theorem in_year_keeps {name : String} {p : Pattern} :
    Keeps Value.WellFormed ⟨name, [.text p, year], inYear⟩ := by
  intro text findings v fits ran
  obtain ⟨x, y, same, left, right⟩ := findings_two fits
  obtain ⟨m, first, -⟩ := fits_text left
  obtain ⟨n, number, second, whole⟩ := fits_year right
  subst same first second
  cases ran
  rw [whole]
  exact year_well_formed number

theorem bare_year_keeps {name : String} : Keeps Value.WellFormed ⟨name, [year], bareYear⟩ := by
  intro text findings v fits ran
  obtain ⟨x, same, only⟩ := findings_one fits
  obtain ⟨n, number, first, whole⟩ := fits_year only
  subst same first
  cases ran
  rw [whole]
  exact year_well_formed number

theorem iso_date_made (findings : List (Finding Value)) (v : Value)
    (ran : isoDate findings = .ok (some v)) : v.WellFormed := by
  unfold isoDate at ran
  split at ran
  · simp only at ran
    split at ran
    · rename_i range
      obtain ⟨months, days⟩ := (is_month_and_day_in_range_iff _ _).mp range
      cases ran
      exact full_date_well_formed months days
    · cases ran
  · cases ran

theorem slash_date_made {readings : Readings}
    (dates : ∀ cs d, readings.date cs = some d → d.isValid = true)
    (findings : List (Finding Value)) (v : Value)
    (ran : slashDate readings findings = .ok (some v)) : v.WellFormed := by
  unfold slashDate at ran
  split at ran
  · split at ran
    · simp only at ran
      split at ran
      · rename_i range
        obtain ⟨months, days⟩ := (is_month_and_day_in_range_iff _ _).mp range
        cases ran
        apply month_and_day_well_formed months
        intro n known
        cases known
        exact days
      · cases ran
    · split at ran
      · rename_i d read
        obtain ⟨months, days⟩ := is_valid_range (dates _ d read)
        cases ran
        exact full_date_well_formed months days
      · cases ran
  · cases ran

theorem weekday_date_keeps {name : String} :
    Keeps Value.WellFormed
      ⟨name, [plainWeekday, onCalendar isDayWithoutWeekday], weekdayDate⟩ := by
  intro text findings v fits ran
  obtain ⟨x, y, same, left, right⟩ := findings_two fits
  obtain ⟨w, weekday, first, form, range⟩ := fits_weekday left
  obtain ⟨u, c, second, date, passed, wellFormed⟩ := fits_calendar right
  subst same first second
  simp only [weekdayDate, calendar?, form, date] at ran
  cases ran
  have day : c.day.isSome = true := (Bool.and_eq_true_iff.mp passed).1
  refine ⟨wellFormed.month, wellFormed.day, ?_, wellFormed.connected, wellFormed.given⟩
  intro own known
  cases known
  exact ⟨range, day⟩

theorem day_rules_keep {readings : Readings}
    (dates : ∀ cs d, readings.date cs = some d → d.isValid = true) :
    ∀ r ∈ dayRules readings, Keeps Value.WellFormed r := by
  simp only [dayRules, List.forall_mem_cons]
  refine ⟨keeps_of_made now_made, keeps_of_made relative_day_made,
    keeps_of_made relative_grain_made, keeps_of_made day_of_week_made, directed_day_of_week_keeps,
    keeps_of_made month_made, the_ordinal_day_keeps, month_day_keeps, day_month_keeps,
    with_year_keeps ?_, with_year_keeps ?_, in_year_keeps, bare_year_keeps,
    keeps_of_made iso_date_made, keeps_of_made (slash_date_made dates), weekday_date_keeps,
    by simp⟩
  · intro d passed
    simp only [isMonthAndDay, Bool.and_eq_true] at passed
    exact passed.1.1
  · intro d passed
    simp only [isMonthOnly, Bool.and_eq_true] at passed
    exact passed.1.1.1

/-! Times of day. -/

theorem half_day_hour_range (hour : Int) (afternoon : Bool) :
    0 ≤ halfDayHour hour afternoon ∧ halfDayHour hour afternoon ≤ 23 := by
  unfold halfDayHour
  split <;> omega

theorem half_day_keeps {name : String} {p : Pattern} {test : DatetimeValue → ClockTime → Bool} :
    Keeps Value.WellFormed ⟨name, [onClock test, .text p], halfDay⟩ := by
  intro text findings v fits ran
  obtain ⟨x, y, same, left, right⟩ := findings_two fits
  obtain ⟨w, t, first, form, -, time⟩ := fits_clock left
  obtain ⟨m, second, -⟩ := fits_text right
  subst same first second
  simp only [halfDay, clockTime?, form] at ran
  split at ran
  · cases ran
    exact ⟨half_day_hour_range _ _, time.minute, by simp⟩
  · cases ran

theorem noon_made (findings : List (Finding Value)) (v : Value)
    (ran : noon findings = .ok (some v)) : v.WellFormed := by
  cases ran
  exact ⟨by decide, by decide, by simp⟩

theorem midnight_made (findings : List (Finding Value)) (v : Value)
    (ran : midnight findings = .ok (some v)) : v.WellFormed := by
  cases ran
  exact ⟨by decide, by decide, by simp⟩

theorem at_time_keeps {name : String} {p : Pattern} {test : DatetimeValue → ClockTime → Bool} :
    Keeps Value.WellFormed ⟨name, [.text p, onClock test], atTime⟩ := by
  intro text findings v fits ran
  obtain ⟨x, y, same, left, right⟩ := findings_two fits
  obtain ⟨m, first, -⟩ := fits_text left
  obtain ⟨w, t, second, form, -, time⟩ := fits_clock right
  subst same first second
  cases ran
  rw [form]
  exact time

theorem hour_of_well_formed {n : NumberValue} {t : ClockTime} (passed : isIntBetween 0 23 n = true)
    (known : hourOf n = some t) : t.WellFormed := by
  obtain ⟨hour, whole, same⟩ := Option.map_eq_some_iff.mp known
  unfold isIntBetween at passed
  rw [whole] at passed
  rw [← same]
  apply on_the_clock_well_formed
  · simpa using passed
  · omega

theorem o_clock_keeps {name : String} {p : Pattern} :
    Keeps Value.WellFormed ⟨name, [Test.number (isIntBetween 0 23), .text p], oClock⟩ := by
  intro text findings v fits ran
  obtain ⟨x, y, same, left, right⟩ := findings_two fits
  obtain ⟨n, first, passed, -⟩ := fits_of .number left
  obtain ⟨m, second, -⟩ := fits_text right
  subst same first second
  obtain ⟨t, known, made⟩ := Option.map_eq_some_iff.mp (Except.ok.inj ran)
  rw [← made]
  exact hour_of_well_formed passed known

theorem bare_hour_keeps {name : String} :
    Keeps Value.WellFormed ⟨name, [Test.number (isIntBetween 0 23)], bareHour⟩ := by
  intro text findings v fits ran
  obtain ⟨x, same, only⟩ := findings_one fits
  obtain ⟨n, first, passed, -⟩ := fits_of .number only
  subst same first
  obtain ⟨t, known, made⟩ := Option.map_eq_some_iff.mp (Except.ok.inj ran)
  rw [← made]
  exact hour_of_well_formed passed known

theorem time_rules_keep : ∀ r ∈ timeRules, Keeps Value.WellFormed r := by
  simp only [timeRules, List.forall_mem_cons]
  exact ⟨clock_keeps, half_day_keeps, keeps_of_made noon_made, keeps_of_made midnight_made,
    at_time_keeps, o_clock_keeps, bare_hour_keeps, by simp⟩

/-! Combinations. -/

theorem timed_well_formed {d w : DatetimeValue} {t : ClockTime} {v : Value}
    (names : d.form.NamesDay) (date : d.form.WellFormed) (form : w.form = .timeOfDay t)
    (time : t.WellFormed) (ran : timed d w = .ok (some v)) : v.WellFormed := by
  simp only [timed, clockTime?, form] at ran
  cases ran
  exact ⟨names, date, time⟩

theorem date_at_time_keeps {name : String} :
    Keeps Value.WellFormed ⟨name, [dayForm, timeForm], dateAtTime⟩ := by
  intro text findings v fits ran
  obtain ⟨x, y, same, left, right⟩ := findings_two fits
  obtain ⟨d, first, names, date⟩ := fits_day_form left
  obtain ⟨w, t, second, form, -, time⟩ := fits_clock right
  subst same first second
  exact timed_well_formed names date form time ran

theorem time_on_date_keeps {name : String} {p : Pattern} :
    Keeps Value.WellFormed ⟨name, [timeForm, .text p, dayForm], timeOnDate⟩ := by
  intro text findings v fits ran
  obtain ⟨x, y, z, same, left, middle, right⟩ := findings_three fits
  obtain ⟨w, t, first, form, -, time⟩ := fits_clock left
  obtain ⟨m, between, -⟩ := fits_text middle
  obtain ⟨d, second, names, date⟩ := fits_day_form right
  subst same first between second
  exact timed_well_formed names date form time ran

theorem Shifts.keeps {r : Rule Value} (shifts : Shifts r.produce) :
    Keeps Value.WellFormed r := by
  intro text findings v fits ran
  rcases shifts findings with same | ⟨d, sign, found, same⟩
  · rw [same] at ran
    cases ran
  · obtain ⟨test, -, -, period⟩ := passed_of_fits fits ((found _).mpr rfl)
    rw [same] at ran
    cases ran
    exact period

theorem range_keeps {name : String} {p q : Pattern} :
    Keeps Value.WellFormed ⟨name, [.text p, pointForm, .text q, pointForm], range⟩ := by
  intro text findings v fits ran
  obtain ⟨w, x, y, z, same, opening, left, middle, right⟩ := findings_four fits
  obtain ⟨m, first, -⟩ := fits_text opening
  obtain ⟨a, second, singleStart, start⟩ := fits_point_form left
  obtain ⟨n, third, -⟩ := fits_text middle
  obtain ⟨b, fourth, singleStop, stop⟩ := fits_point_form right
  subst same first second third fourth
  cases ran
  exact ⟨⟨singleStart, start⟩, singleStop, stop⟩

theorem combined_rules_keep : ∀ r ∈ combinedRules, Keeps Value.WellFormed r := by
  simp only [combinedRules, List.forall_mem_cons]
  exact ⟨date_at_time_keeps, time_on_date_keeps, in_duration_shifts.keeps,
    (duration_then_shifts _).keeps, (duration_then_shifts _).keeps,
    range_keeps, range_keeps, by simp⟩

end Reckon.English.Datetimes

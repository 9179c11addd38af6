import Reckon.Proofs.Clock.OnceShown
import Reckon.Proofs.Resolution.Grounding

/-!
# The next time of day

A time of day resolves to the first moment, from the start of the minute of the reference on, at
which the clock reads it. It is looked for on the day of the reference and on the next day. The
search counts days from the midnight of the reference, which on the first day of the calendar may be
outside of it by UTC.
-/

set_option autoImplicit false

namespace Reckon

open Sequencing Moment Zone LocalTime

namespace LocalTime

def onDay (day hour minute : Int) : LocalTime :=
  ⟨day * ticksPerDay + hour * ticksPerHour + minute * ticksPerMinute⟩

theorem make_date (t : LocalTime) (hour minute : Int) :
    make t.date hour minute 0 0 = onDay t.dayNumber hour minute := by
  rw [make, date, Date.day_number_of_day_number, onDay]
  simp

theorem day_number_midnight (day : Int) : (LocalTime.mk (day * ticksPerDay)).dayNumber = day :=
  Int.mul_ediv_cancel _ (by decide)

end LocalTime

namespace ClockTime

variable {t : ClockTime} {floor u v : LocalTime}

/-- A reading shows a time of day to the minute: an ambiguous one also twelve hours later. -/
structure Reads (t : ClockTime) (u : LocalTime) : Prop where
  hour : u.hour = t.hour ∨ t.ambiguous = true ∧ u.hour = (t.hour + 12) % 24
  minute : u.minute = t.minute
  whole : u.second = 0 ∧ u.microsecond = 0

/-- The first reading from another one on that shows the time. -/
structure FirstFrom (t : ClockTime) (floor u : LocalTime) : Prop where
  reads : t.Reads u
  after : floor.ticks ≤ u.ticks
  first : ∀ v, t.Reads v → floor.ticks ≤ v.ticks → u.ticks ≤ v.ticks

/-- An hour and a minute that a clock shows. -/
structure Proper (t : ClockTime) : Prop where
  hour : 0 ≤ t.hour ∧ t.hour < 24
  minute : 0 ≤ t.minute ∧ t.minute < 60

theorem mem_hours_of {hour : Int} : hour ∈ TimeForm.hoursOf t ↔
    hour = t.hour ∨ t.ambiguous = true ∧ hour = (t.hour + 12) % 24 := by
  unfold TimeForm.hoursOf
  simp only
  split
  · rename_i one
    simp only [Bool.or_eq_true, Bool.not_eq_true', decide_eq_true_eq] at one
    rw [List.mem_singleton]
    rcases one with plain | same
    · simp [plain]
    · simp [same]
  · rename_i two
    simp only [Bool.or_eq_true, Bool.not_eq_true', not_or, Bool.not_eq_false] at two
    simp only [two.1, true_and]
    split
    · simp
    · simp [or_comm]

theorem Proper.hours_of (proper : t.Proper) {hour : Int} (listed : hour ∈ TimeForm.hoursOf t) :
    0 ≤ hour ∧ hour < 24 := by
  have hours := proper.hour
  rcases mem_hours_of.mp listed with same | ⟨-, later⟩
  · omega
  · omega

theorem Proper.day_number_on_day (proper : t.Proper) {hour : Int}
    (listed : hour ∈ TimeForm.hoursOf t) (day : Int) :
    (onDay day hour t.minute).dayNumber = day := by
  have hours := proper.hours_of listed
  have minutes := proper.minute
  simp only [LocalTime.dayNumber, onDay, ticksPerDay, ticksPerHour, ticksPerMinute, ticksPerSecond]
  omega

theorem Proper.reads_on_day (proper : t.Proper) {hour : Int}
    (listed : hour ∈ TimeForm.hoursOf t) (day : Int) : t.Reads (onDay day hour t.minute) := by
  have hours := proper.hours_of listed
  have minutes := proper.minute
  have same : (onDay day hour t.minute).hour = hour := by
    simp only [LocalTime.hour, onDay, ticksPerDay, ticksPerHour, ticksPerMinute, ticksPerSecond]
    omega
  refine ⟨?_, ?_, ?_⟩
  · rw [same]
    exact mem_hours_of.mp listed
  · simp only [LocalTime.minute, onDay, ticksPerDay, ticksPerHour, ticksPerMinute, ticksPerSecond]
    omega
  · simp only [second, microsecond, onDay, ticksPerDay, ticksPerHour, ticksPerMinute,
      ticksPerSecond]
    omega

theorem Reads.exists_hour (reads : t.Reads u) :
    ∃ hour ∈ TimeForm.hoursOf t, u = onDay u.dayNumber hour t.minute := by
  refine ⟨u.hour, mem_hours_of.mpr reads.hour, congrArg LocalTime.mk ?_⟩
  have minutes := reads.minute
  have whole := reads.whole
  rw [← minutes]
  simp only [LocalTime.hour, LocalTime.minute, second, microsecond, LocalTime.dayNumber,
    ticksPerDay, ticksPerHour, ticksPerMinute, ticksPerSecond] at *
  omega

theorem Proper.exists_first_from (proper : t.Proper) (floor : LocalTime) :
    ∃ u, t.FirstFrom floor u ∧
      (u.dayNumber = floor.dayNumber ∨ u.dayNumber = floor.dayNumber + 1) := by
  have listed : t.hour ∈ TimeForm.hoursOf t := mem_hours_of.mpr (.inl rfl)
  have tomorrow := proper.reads_on_day listed (floor.dayNumber + 1)
  have later := proper.day_number_on_day listed (floor.dayNumber + 1)
  generalize onDay (floor.dayNumber + 1) t.hour t.minute = next at tomorrow later
  have ahead : floor.ticks ≤ next.ticks := by
    simp only [LocalTime.dayNumber, ticks_per_day_eq] at later
    omega
  -- tomorrow's reading is one of those that are not before, so there is a least
  obtain ⟨ticks, ⟨reads, after⟩, least⟩ := Int.exists_least_of_bdd
    (P := fun ticks => t.Reads ⟨ticks⟩ ∧ floor.ticks ≤ ticks)
    ⟨floor.ticks, fun _ here => here.2⟩ ⟨next.ticks, tomorrow, ahead⟩
  refine ⟨⟨ticks⟩, ⟨reads, after, fun v shows from_ => least v.ticks ⟨shows, from_⟩⟩, ?_⟩
  have bound := least next.ticks ⟨tomorrow, ahead⟩
  simp only [LocalTime.dayNumber, ticks_per_day_eq] at *
  omega

end ClockTime

namespace TimeForm

variable {t : ClockTime} {z : Zone} {u : LocalTime} {floor : Moment} {day : Int}

theorem kept_le (best next : Moment) :
    (if next.isBefore best then next else best).reading.ticks ≤ best.reading.ticks ∧
      (if next.isBefore best then next else best).reading.ticks ≤ next.reading.ticks := by
  split
  · rename_i before
    exact ⟨le_of_lt (of_decide_eq_true before), le_rfl⟩
  · rename_i after
    exact ⟨le_rfl, by simpa [isBefore] using after⟩

theorem earliest?_le {moments : List Moment} {m : Moment} (found : earliest? moments = some m) :
    ∀ other ∈ moments, m.reading.ticks ≤ other.reading.ticks := by
  have least : ∀ (rest : List Moment) (best : Moment), ∀ other ∈ best :: rest,
      (rest.foldl (fun best next => if next.isBefore best then next else best)
        best).reading.ticks ≤ other.reading.ticks := by
    intro rest
    induction rest with
    | nil => simp
    | cons next rest ih =>
        intro best other listed
        have later := ih (if next.isBefore best then next else best)
        have head := later _ List.mem_cons_self
        have kept := kept_le best next
        rw [List.foldl_cons]
        rcases List.mem_cons.mp listed with same | listed
        · rw [same]
          exact le_trans head kept.1
        · rcases List.mem_cons.mp listed with same | among
          · rw [same]
            exact le_trans head kept.2
          · exact later other (List.mem_cons_of_mem _ among)
  cases moments with
  | nil => cases found
  | cons first rest => exact Option.some.inj found ▸ least rest first

theorem reading_on_eq (proper : t.Proper) (steady : z.Steady day) (floor : Moment) (fold : Bool) :
    readingOn t floor ⟨z, ⟨day * ticksPerDay⟩, fold⟩ =
      .ok (earliest? (((hoursOf t).map fun hour =>
        Moment.mk z (onDay day hour t.minute) fold).filter fun m => !m.isBefore floor)) := by
  have second : (LocalTime.mk (day * ticksPerDay)).second = 0 := by
    simp only [LocalTime.second, ticksPerDay, ticksPerHour, ticksPerMinute, ticksPerSecond]
    omega
  have microsecond : (LocalTime.mk (day * ticksPerDay)).microsecond = 0 := by
    simp only [LocalTime.microsecond, ticksPerDay, ticksPerHour, ticksPerMinute, ticksPerSecond]
    omega
  have options : (hoursOf t).mapM (fun hour =>
      Moment.setTime ⟨z, ⟨day * ticksPerDay⟩, fold⟩ hour t.minute 0 0) =
        .ok ((hoursOf t).map fun hour => ⟨z, onDay day hour t.minute, fold⟩) := by
    rw [map_m_ok_iff, List.forall₂_map_right_iff, List.forall₂_same]
    intro hour listed
    have hours := proper.hours_of listed
    have minutes := proper.minute
    have time : isTimeOfDay hour t.minute 0 0 = true := by
      simp only [isTimeOfDay, Bool.and_eq_true, decide_eq_true_eq]
      omega
    rw [setTime, if_pos time, withReading, Moment.date, make_date, day_number_midnight,
      at_local_of_shows_once (steady _ (proper.day_number_on_day listed day))]
  rw [readingOn, second, microsecond, options, ok_bind]
  rfl

theorem reading_on_first (proper : t.Proper) (steady : z.Steady u.dayNumber)
    (first : t.FirstFrom floor.reading u) (fold : Bool) :
    readingOn t floor ⟨z, ⟨u.dayNumber * ticksPerDay⟩, fold⟩ = .ok (some ⟨z, u, fold⟩) := by
  rw [reading_on_eq proper steady]
  generalize chosen : ((hoursOf t).map fun hour =>
    Moment.mk z (onDay u.dayNumber hour t.minute) fold).filter
    (fun m => !m.isBefore floor) = moments
  have among : Moment.mk z u fold ∈ moments := by
    obtain ⟨hour, listed, same⟩ := first.reads.exists_hour
    rw [← chosen, List.mem_filter, List.mem_map]
    refine ⟨⟨hour, listed, by rw [← same]⟩, ?_⟩
    simpa [isBefore] using first.after
  cases found : earliest? moments with
  | none =>
      cases moments with
      | nil => cases among
      | cons _ _ => cases found
  | some m =>
      have member := earliest?_mem found
      rw [← chosen, List.mem_filter, List.mem_map] at member
      obtain ⟨⟨hour, listed, same⟩, after⟩ := member
      have reads := proper.reads_on_day listed u.dayNumber
      have here := earliest?_le found _ among
      have there := first.first _ reads (by simpa [isBefore, ← same] using after)
      rw [← same] at here ⊢
      rw [show onDay u.dayNumber hour t.minute = u from
        congrArg LocalTime.mk (le_antisymm here there)]

theorem reading_on_none (proper : t.Proper) (steady : z.Steady day)
    (first : t.FirstFrom floor.reading u) (early : day < u.dayNumber) (fold : Bool) :
    readingOn t floor ⟨z, ⟨day * ticksPerDay⟩, fold⟩ = .ok none := by
  have empty : ((hoursOf t).map fun hour => Moment.mk z (onDay day hour t.minute) fold).filter
      (fun m => !m.isBefore floor) = [] := by
    rw [List.filter_eq_nil_iff]
    intro m listed upcoming
    obtain ⟨hour, meant, same⟩ := List.mem_map.mp listed
    have here := proper.day_number_on_day meant day
    have later := first.first _ (proper.reads_on_day meant day)
      (by simpa [isBefore, ← same] using upcoming)
    simp only [LocalTime.dayNumber, ticks_per_day_eq] at *
    omega
  rw [reading_on_eq proper steady, empty]
  rfl

end TimeForm

namespace Moment

def minuteStart (m : Moment) : Moment :=
  m.withReading (m.reading.floorTo ticksPerMinute)

end Moment

/-- The next moment at which a clock reads a time: the first one that is not before the start of the
minute of the reference. -/
structure ClockTime.ComesNext (t : ClockTime) (ref m : Moment) : Prop where
  zone : m.zone = ref.zone
  shown : (readAt ref.zone m.instant).reading = m.reading
  reads : t.Reads m.reading
  after : ref.minuteStart.instant ≤ m.instant
  first : ∀ instant, ref.minuteStart.instant ≤ instant →
    t.Reads (readAt ref.zone instant).reading → m.instant ≤ instant

namespace TimeForm

variable {t : ClockTime} {ref : Moment} {u : LocalTime}

theorem comes_next_of_first_from (regular : ref.zone.Regular)
    (start : ref.zone.ShowsOnce (ref.reading.floorTo ticksPerMinute)) (once : ref.zone.ShowsOnce u)
    (first : t.FirstFrom (ref.reading.floorTo ticksPerMinute) u) (fold : Bool) :
    t.ComesNext ref ⟨ref.zone, u, fold⟩ := by
  have began : ref.minuteStart.instant = ref.zone.onceAt (ref.reading.floorTo ticksPerMinute) := by
    rw [minuteStart, withReading, at_local_of_shows_once start]
    exact congrArg (instantUnder · _) (start.offset_eq ref.fold)
  have placed : (Moment.mk ref.zone u fold).instant = ref.zone.onceAt u :=
    congrArg (instantUnder · u) (once.offset_eq fold)
  have shown : (readAt ref.zone (ref.zone.onceAt u)).reading = u := read_at_of_shows_once once false
  have order := regular.reading_lt_iff start
  refine ⟨rfl, ?_, first.reads, ?_, ?_⟩
  · rw [placed, shown]
  · rw [began, placed, ← not_lt, ← order, shown, not_lt]
    exact first.after
  · intro instant later reads
    rw [began, ← not_lt, ← order, not_lt] at later
    rw [placed, ← not_lt, ← regular.reading_lt_iff once, not_lt]
    exact first.first _ reads later

theorem day_number_floor_to_minute (m : Moment) :
    (m.reading.floorTo ticksPerMinute).dayNumber = m.dayNumber := by
  simp only [floorTo, Moment.dayNumber, LocalTime.dayNumber, ticksPerDay, ticksPerHour,
    ticksPerMinute, ticksPerSecond]
  omega

theorem start_of_day_of_steady (today : ref.zone.Steady ref.dayNumber) :
    ref.startOfDay = ⟨ref.zone, ⟨ref.dayNumber * ticksPerDay⟩, ref.fold⟩ := by
  have opening : ref.reading.floorTo ticksPerDay = ⟨ref.dayNumber * ticksPerDay⟩ := by
    apply congrArg LocalTime.mk
    simp only [Moment.dayNumber, LocalTime.dayNumber, ticks_per_day_eq]
    omega
  have floor := day_number_floor_to ref.reading
  rw [startOfDay, withReading, at_local_of_shows_once (today _ floor), opening]

theorem instant_start_of_day (regular : ref.zone.Regular) (today : ref.zone.Steady ref.dayNumber) :
    (ref.dayNumber - 1) * ticksPerDay < ref.startOfDay.instant ∧
      ref.startOfDay.instant < (ref.dayNumber + 1) * ticksPerDay := by
  have zone : ref.startOfDay.zone = ref.zone := start_of_day_is_in rfl
  have near := instant_near (zone.symm ▸ regular)
  rw [start_of_day_of_steady today] at near ⊢
  simp only [ticks_per_day_eq] at *
  omega

theorem add_none_start_of_day (regular : ref.zone.Regular)
    (within : ref.reading.isRepresentable = true) (today : ref.zone.Steady ref.dayNumber) :
    ∃ fold, ref.startOfDay.add .day 0 =
      if 0 ≤ ref.startOfDay.instant then .ok ⟨ref.zone, ⟨ref.dayNumber * ticksPerDay⟩, fold⟩
      else .error .outOfRange := by
  have bounds := instant_start_of_day regular today
  have shown := (today _ (day_number_midnight _)).displays
  have zone : ref.startOfDay.zone = ref.zone := start_of_day_is_in rfl
  have reading : ref.startOfDay.reading = ⟨ref.dayNumber * ticksPerDay⟩ := by
    rw [start_of_day_of_steady today]
  have calendar : ((LocalTime.mk ref.startOfDay.instant).isRepresentable = true ∧
      ref.startOfDay.reading.isRepresentable = true) ↔ 0 ≤ ref.startOfDay.instant := by
    rw [reading, is_representable_iff, is_representable_iff]
    rw [is_representable_iff] at within
    simp only [Moment.dayNumber, LocalTime.dayNumber, ticks_per_day_eq] at *
    omega
  rw [← reading, ← zone] at shown
  have back := read_at_instant (zone.symm ▸ regular) shown
  refine ⟨(readAt ref.startOfDay.zone ref.startOfDay.instant).fold, ?_⟩
  rw [add_none, add_elapsed_none_eq (zone.symm ▸ regular) shown, if_congr calendar rfl rfl, ← zone,
    ← reading]
  congr 2
  exact congrArg (Moment.mk _ · _) back

theorem add_one_start_of_day (regular : ref.zone.Regular) (today : ref.zone.Steady ref.dayNumber)
    (tomorrow : ref.zone.Steady (ref.dayNumber + 1)) :
    ref.startOfDay.add .day 1 =
      if (LocalTime.mk ((ref.dayNumber + 1) * ticksPerDay)).isRepresentable = true then
        .ok ⟨ref.zone, ⟨(ref.dayNumber + 1) * ticksPerDay⟩, true⟩
      else .error .outOfRange := by
  have next : (LocalTime.mk ((ref.dayNumber + 1) * ticksPerDay)).ticks =
      ref.dayNumber * ticksPerDay + 1 * ticksPerDay := Int.add_mul _ _ _
  have shown := (tomorrow _ (day_number_midnight _)).displays
  rw [start_of_day_of_steady today]
  exact add_day_eq (m := ⟨ref.zone, ⟨ref.dayNumber * ticksPerDay⟩, ref.fold⟩) regular one_ne_zero
    next shown

/-- The search returns the first reading of the time if it can be represented, and fails for its
range otherwise, unless today's midnight is before the calendar by UTC. -/
theorem ground_time_of_day_eq (regular : ref.zone.Regular)
    (within : ref.reading.isRepresentable = true) (today : ref.zone.Steady ref.dayNumber)
    (tomorrow : ref.zone.Steady (ref.dayNumber + 1)) (proper : t.Proper)
    (opened : 0 ≤ ref.startOfDay.instant)
    (first : t.FirstFrom (ref.reading.floorTo ticksPerMinute) u)
    (near : u.dayNumber = ref.dayNumber ∨ u.dayNumber = ref.dayNumber + 1) :
    ∃ fold, groundTimeOfDay t ref =
      if u.isRepresentable = true then .ok ⟨ref.zone, u, fold⟩ else .error .outOfRange := by
  have started : ref.startOf .minute 0 =
      .ok ⟨ref.zone, ref.reading.floorTo ticksPerMinute, ref.fold⟩ := by
    rw [startOf, withReading, at_local_of_shows_once (today _ (day_number_floor_to_minute ref))]
  obtain ⟨fold, here⟩ := add_none_start_of_day regular within today
  rw [if_pos opened] at here
  rw [groundTimeOfDay, started, ok_bind]
  simp only
  rw [here, ok_bind]
  rcases near with same | later
  · have reaches : u.isRepresentable = true := by
      rw [is_representable_iff] at within ⊢
      simp only [Moment.dayNumber, LocalTime.dayNumber, ticks_per_day_eq] at *
      omega
    refine ⟨fold, ?_⟩
    rw [← same, reading_on_first proper (same ▸ today) first, ok_bind, if_pos reaches]
    rfl
  · -- the calendar ends at a midnight, so it has all of tomorrow or nothing
    have reaches : u.isRepresentable =
        (LocalTime.mk ((ref.dayNumber + 1) * ticksPerDay)).isRepresentable := by
      rw [Bool.eq_iff_iff, is_representable_iff, is_representable_iff]
      rw [is_representable_iff] at within
      simp only [Moment.dayNumber, LocalTime.dayNumber, ticks_per_day_eq] at *
      omega
    refine ⟨true, ?_⟩
    rw [reading_on_none proper today first (by omega), ok_bind]
    simp only
    rw [add_one_start_of_day regular today tomorrow, reaches, ← later]
    split_ifs
    · rw [ok_bind, reading_on_first proper (later ▸ tomorrow) first]
      rfl
    · rfl

theorem ground_time_of_day_early (regular : ref.zone.Regular)
    (within : ref.reading.isRepresentable = true) (today : ref.zone.Steady ref.dayNumber)
    (early : ref.startOfDay.instant < 0) : groundTimeOfDay t ref = .error .outOfRange := by
  obtain ⟨fold, failed⟩ := add_none_start_of_day regular within today
  rw [if_neg (not_le.mpr early)] at failed
  rw [groundTimeOfDay, startOf, ok_bind]
  simp only
  rw [failed]
  rfl

theorem date_of_not_representable (within : ref.reading.isRepresentable = true)
    (near : u.dayNumber = ref.dayNumber ∨ u.dayNumber = ref.dayNumber + 1)
    (past : u.isRepresentable = false) : ref.date = ⟨9999, 12, 31⟩ := by
  rw [← Bool.not_eq_true] at past
  rw [is_representable_iff] at within past
  have day : ref.dayNumber = 3652058 := by
    simp only [Moment.dayNumber, LocalTime.dayNumber, ticks_per_day_eq] at *
    omega
  have same : ref.date = Date.ofDayNumber ref.dayNumber := rfl
  rw [same, day]
  decide +kernel

theorem date_of_start_of_day_neg (regular : ref.zone.Regular)
    (within : ref.reading.isRepresentable = true) (today : ref.zone.Steady ref.dayNumber)
    (early : ref.startOfDay.instant < 0) : ref.date = ⟨1, 1, 1⟩ := by
  have bounds := instant_start_of_day regular today
  rw [is_representable_iff] at within
  have day : ref.dayNumber = 0 := by
    simp only [Moment.dayNumber, LocalTime.dayNumber, ticks_per_day_eq] at *
    omega
  have same : ref.date = Date.ofDayNumber ref.dayNumber := rfl
  rw [same, day]
  decide +kernel

/-- A time of day resolves to the next moment at which the clock reads it, if the clock is changed
neither today nor tomorrow. It never lacks a place for the time: it fails only where that moment is
past year 9999. This leaves out the first day of the calendar where its midnight is before the
calendar by UTC. -/
theorem ground_time_of_day_next (c : Context) (ref : Moment) (t : ClockTime)
    (regular : ref.zone.Regular) (within : ref.reading.isRepresentable = true)
    (today : ref.zone.Steady ref.dayNumber) (tomorrow : ref.zone.Steady (ref.dayNumber + 1))
    (proper : t.Proper) :
    ∃ m, t.ComesNext ref m ∧
      (m.reading.isRepresentable = false → ref.date = ⟨9999, 12, 31⟩) ∧
      (ref.startOfDay.instant < 0 → ref.date = ⟨1, 1, 1⟩) ∧
      (0 ≤ ref.startOfDay.instant →
        (m.reading.isRepresentable = true → (timeOfDay t).ground c ref = .ok (m, t.grain)) ∧
        (m.reading.isRepresentable = false →
          ∃ failure, (timeOfDay t).ground c ref = .error failure)) ∧
      ∀ hour minute, (timeOfDay t).ground c ref ≠ resolutionFault (.noPlace hour minute) := by
  obtain ⟨u, first, near⟩ := proper.exists_first_from (ref.reading.floorTo ticksPerMinute)
  rw [day_number_floor_to_minute] at near
  have start := today _ (day_number_floor_to_minute ref)
  have once : ref.zone.ShowsOnce u := by
    rcases near with same | next
    · exact today u same
    · exact tomorrow u next
  have last := date_of_not_representable within near
  have opening := date_of_start_of_day_neg regular within today
  by_cases opened : 0 ≤ ref.startOfDay.instant
  · obtain ⟨fold, found⟩ := ground_time_of_day_eq regular within today tomorrow proper opened
        first near
    have grounds : (timeOfDay t).ground c ref =
        if u.isRepresentable = true then .ok (⟨ref.zone, u, fold⟩, t.grain)
        else .error .outOfRange := by
      rw [ground, found]
      split_ifs
      · rfl
      · rfl
    refine ⟨⟨ref.zone, u, fold⟩, comes_next_of_first_from regular start once first fold, last,
      opening, fun _ => ⟨fun inside => ?_, fun outside => ⟨.outOfRange, ?_⟩⟩, fun hour minute => ?_⟩
    · rw [grounds, if_pos inside]
    · rw [grounds, if_neg (ne_true_of_eq_false outside)]
    · rw [grounds, resolutionFault]
      split_ifs
      · simp
      · simp
  · refine ⟨⟨ref.zone, u, false⟩, comes_next_of_first_from regular start once first false, last,
      opening, fun before => absurd before opened, fun hour minute => ?_⟩
    rw [ground, ground_time_of_day_early regular within today (not_le.mp opened), resolutionFault]
    intro same
    cases same

/-- From half past four the next quarter past four, in the morning or in the afternoon, is in the
afternoon. -/
theorem training_quarter_past : Context.training.now.zone.Regular ∧
    Context.training.now.reading.isRepresentable = true ∧
    Context.training.now.zone.Steady Context.training.now.dayNumber ∧
    Context.training.now.zone.Steady (Context.training.now.dayNumber + 1) ∧
    ClockTime.Proper { hour := 4, minute := 15, ambiguous := true } ∧
    ∃ m, ClockTime.ComesNext { hour := 4, minute := 15, ambiguous := true } Context.training.now m ∧
      m.reading = LocalTime.make ⟨2013, 2, 12⟩ 16 15 0 0 := by
  have regular : Context.training.now.zone.Regular := regular_of_fixed "UTC" (by decide)
  have within : Context.training.now.reading.isRepresentable = true := by decide +kernel
  have steady : ∀ day, Context.training.now.zone.Steady day := steady_of_fixed rfl rfl
  have proper : ClockTime.Proper { hour := 4, minute := 15, ambiguous := true } :=
    ⟨by decide, by decide⟩
  have ran : ((timeOfDay { hour := 4, minute := 15, ambiguous := true }).ground Context.training
      Context.training.now).toOption.map (·.1.reading) =
        some (LocalTime.make ⟨2013, 2, 12⟩ 16 15 0 0) := by decide +kernel
  obtain ⟨m, next, -, -, grounds, -⟩ := ground_time_of_day_next Context.training
    Context.training.now { hour := 4, minute := 15, ambiguous := true } regular within (steady _)
    (steady _) proper
  obtain ⟨found, failed⟩ := grounds (by decide +kernel)
  refine ⟨regular, within, steady _, steady _, proper, m, next, ?_⟩
  cases inside : m.reading.isRepresentable with
  | true =>
      rw [found inside] at ran
      exact Option.some.inj ran
  | false =>
      obtain ⟨failure, missed⟩ := failed inside
      rw [missed] at ran
      cases ran

def lastHour : Moment :=
  ⟨Zone.utc, LocalTime.make ⟨9999, 12, 31⟩ 23 0 0 0, false⟩

/-- From there noon comes next in year 10000, which is out of range. -/
theorem last_hour_out_of_range : lastHour.zone.Regular ∧
    lastHour.reading.isRepresentable = true ∧ lastHour.zone.Steady lastHour.dayNumber ∧
    lastHour.zone.Steady (lastHour.dayNumber + 1) ∧ ClockTime.Proper { hour := 12 } ∧
    (timeOfDay { hour := 12 }).ground { now := lastHour } lastHour = .error .outOfRange := by
  have steady : ∀ day, lastHour.zone.Steady day := steady_of_fixed rfl rfl
  refine ⟨regular_of_fixed "UTC" (by decide), by decide +kernel, steady _, steady _,
    ⟨by decide, by decide⟩, ?_⟩
  decide +kernel

end TimeForm

end Reckon

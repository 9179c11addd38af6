import Reckon.Proofs.Clock.BucketStarts
import Reckon.Proofs.Resolution.Weekdays

/-!
# Grains counted from the current one

On a clock that shows every midnight, the moments that days, weeks, months and years relative to a
reference resolve to start one bucket of the calendar after the other. The reference is in the
bucket that is counted as none.
-/

set_option autoImplicit false

namespace Reckon

open Sequencing Moment Zone LocalTime

/-- One moment is before another, by the clock and by UTC. -/
structure Moment.Precedes (a b : Moment) : Prop where
  clock : a.isBefore b = true
  instant : a.instant < b.instant

namespace Moment

variable {a b : Moment} {d e : Date}

theorem precedes_of_apart (regular : a.zone.Regular) (zone : b.zone = a.zone)
    (apart : a.reading.ticks + 43200 * ticksPerSecond ≤ b.reading.ticks) : a.Precedes b := by
  constructor
  · rw [isBefore, decide_eq_true_eq]
    simp only [ticksPerSecond] at apart
    omega
  · have near := regular.offset_of_lt b.reading a.reading b.fold a.fold
    rw [instant, instant, Moment.offset, Moment.offset, zone, instantUnder, instantUnder]
    simp only [ticksPerSecond] at *
    omega

theorem precedes_of_dates (regular : a.zone.Regular) (zone : b.zone = a.zone)
    (here : a.reading = midnight d) (there : b.reading = midnight e)
    (lt : d.dayNumber < e.dayNumber) : a.Precedes b := by
  apply precedes_of_apart regular zone
  rw [here, there, midnight, midnight]
  simp only [ticks_per_day_eq, ticksPerSecond]
  omega

/-- Of two readings that the clock shows the later one is of a later moment, if it is taken under
the fold. -/
theorem precedes_of_fold (regular : a.zone.Regular) (zone : b.zone = a.zone)
    (here : a.zone.Displays a.reading) (there : a.zone.Displays b.reading) (fold : b.fold = true)
    (lt : a.reading.ticks < b.reading.ticks) : a.Precedes b := by
  refine ⟨decide_eq_true lt, lt_of_le_of_ne ?_ fun same => ?_⟩
  · have second : a.instant ≤ instantUnder (a.zone.offsetOf a.reading true) a.reading := by
      have forward : ¬ a.zone.offsetOf a.reading false < a.zone.offsetOf a.reading true :=
        (regular.displays_iff _).mp here
      rw [instant, Moment.offset]
      simp only [instantUnder, ticksPerSecond]
      cases a.fold with
      | false => omega
      | true => exact le_rfl
    refine le_trans second ?_
    rw [instant, Moment.offset, zone, fold]
    exact regular.instant_under_le here there lt.le true
  · -- one instant has one reading
    have first := read_at_instant regular here
    have last := read_at_instant (m := b) (zone.symm ▸ regular) (zone.symm ▸ there)
    rw [zone, ← same, first] at last
    rw [last] at lt
    exact lt_irrefl _ lt

theorem reaches_midnight {z : Zone} (regular : z.Regular) (valid : d.isValid = true)
    (later : d ≠ ⟨1, 1, 1⟩) : Reaches z (midnight d) := by
  have proper := ((Date.is_valid_iff d).mp valid).2
  have within : (midnight d).isRepresentable = true :=
      (is_representable_midnight proper).trans valid
  have first : Date.Proper ⟨1, 1, 1⟩ := ⟨by simp, by simp, by decide⟩
  have notFirst : d.dayNumber ≠ 0 := fun same => later (proper.eq_of_day_number first same)
  refine ⟨within, fun fold => ?_⟩
  obtain ⟨instant, offset⟩ := exists_offset_at z (midnight d) fold
  have short := regular.short instant
  rw [is_representable_iff] at within ⊢
  rw [offset]
  simp only [midnight, instantUnder, ticks_per_day_eq, ticksPerSecond] at *
  omega

end Moment

namespace TimeForm

variable {grain : Grain} {ref : Moment}

theorem ground_relative_reaches (c : Context) (regular : ref.zone.Regular)
    (shown : ref.zone.ShowsMidnights) (real : ref.zone.Displays ref.reading)
    (long : Grain.day.size ≤ grain.size) (n : Int) :
    (∃ m, (relative grain n).ground c ref = .ok (m, grain) ∧ m.zone = ref.zone ∧
        m.reading = midnight (Date.bucketFrom grain c.weekStart ref.date n) ∧
        (n = 0 → m.instant ≤ ref.instant) ∧ (n ≠ 0 → m.fold = true)) ∨
      (relative grain n).ground c ref = .error .outOfRange ∧
        ((Date.bucketFrom grain c.weekStart ref.date n).isValid = false ∨
          ¬ Reaches ref.zone (midnight (Date.bucketFrom grain c.weekStart ref.date 0))) := by
  rcases start_of_reaches regular shown real long c.weekStart with
    ⟨s, started, zone, start, instant⟩ | ⟨failed, outside⟩
  · rw [ground, started, ok_bind]
    rw [← zone] at regular shown
    by_cases none : n = 0
    · subst none
      have opened := regular.displays_midnight shown
        (Date.bucketFrom grain c.weekStart ref.date 0)
      rw [← start] at opened
      rw [add_none, add_elapsed_none_eq regular opened]
      split_ifs with inside
      · refine .inl ⟨_, rfl, zone, ?_, fun _ => ?_, fun some => absurd rfl some⟩
        · rw [read_at_instant regular opened, start]
        · rw [instant_read_at regular]
          exact instant
      · refine .inr ⟨rfl, .inr fun reaches => inside ⟨?_, ?_⟩⟩
        · rw [Moment.instant, Moment.offset, start, zone]
          exact reaches.2 s.fold
        · rw [start]
          exact reaches.1
    · rw [add_bucket regular shown long start none]
      split_ifs with valid
      · exact .inl ⟨_, rfl, zone, rfl, fun zero => absurd zero none, fun _ => rfl⟩
      · exact .inr ⟨rfl, .inl (eq_false_of_ne_true valid)⟩
  · rw [ground, failed]
    exact .inr ⟨rfl, .inr outside⟩

theorem ground_relative_found (c : Context) (regular : ref.zone.Regular)
    (shown : ref.zone.ShowsMidnights) (real : ref.zone.Displays ref.reading)
    (long : Grain.day.size ≤ grain.size) {n : Int} {m : Moment} {g : Grain}
    (ran : (relative grain n).ground c ref = .ok (m, g)) : m.zone = ref.zone ∧
      m.reading = midnight (Date.bucketFrom grain c.weekStart ref.date n) ∧
      (n = 0 → m.instant ≤ ref.instant) ∧ (n ≠ 0 → m.fold = true) := by
  rcases ground_relative_reaches c regular shown real long n with
    ⟨found, returned, facts⟩ | ⟨failed, -⟩
  · rw [returned] at ran
    cases ran
    exact facts
  · rw [failed] at ran
    cases ran

/-- On a clock that is put forward over no midnight, days, weeks, months and years relative to a
reference tile the calendar. Each resolves to the midnight that starts its bucket; the current one
starts not after the reference, the next one after it, and each one before the next, by the clock
and by UTC. They resolve unless the date of the bucket, or that of the current one, is outside of
years 1 to 9999; the first midnight of the calendar may also be outside by UTC. -/
theorem ground_relative_tiles (c : Context) (grain : Grain) (ref : Moment)
    (regular : ref.zone.Regular) (shown : ref.zone.ShowsMidnights)
    (real : ref.zone.Displays ref.reading) (long : Grain.day.size ≤ grain.size) :
    ∃ bucket : Int → Date, Date.Tiles grain c.weekStart ref.date bucket ∧
      (∀ n, (∃ m, (relative grain n).ground c ref = .ok (m, grain) ∧ m.zone = ref.zone ∧
          m.reading = midnight (bucket n)) ∨
        (relative grain n).ground c ref = .error .outOfRange ∧
          ((bucket n).isValid = false ∨ (bucket 0).isValid = false ∨
            bucket 0 = ⟨1, 1, 1⟩ ∧ ¬ Reaches ref.zone (midnight (bucket 0)))) ∧
      (∀ m g, (relative grain 0).ground c ref = .ok (m, g) →
        ref.isBefore m = false ∧ m.instant ≤ ref.instant) ∧
      (∀ m g, (relative grain 1).ground c ref = .ok (m, g) → ref.Precedes m) ∧
      ∀ n m g next h, (relative grain n).ground c ref = .ok (m, g) →
        (relative grain (n + 1)).ground c ref = .ok (next, h) → m.Precedes next := by
  have tiles := Date.tiles_bucket_from long c.weekStart ref.proper
  refine ⟨Date.bucketFrom grain c.weekStart ref.date, tiles, ?_, ?_, ?_, ?_⟩
  · intro n
    rcases ground_relative_reaches c regular shown real long n with
      ⟨m, returned, zone, reading, -⟩ | ⟨failed, outside⟩
    · exact .inl ⟨m, returned, zone, reading⟩
    · refine .inr ⟨failed, outside.imp_right fun outside => ?_⟩
      by_cases opening : Date.bucketFrom grain c.weekStart ref.date 0 = ⟨1, 1, 1⟩
      · exact .inr ⟨opening, outside⟩
      · refine .inl (eq_false_of_ne_true fun valid => ?_)
        exact outside (reaches_midnight regular valid opening)
  · intro m g ran
    obtain ⟨-, reading, instant, -⟩ := ground_relative_found c regular shown real long ran
    refine ⟨?_, instant rfl⟩
    rw [isBefore, reading, decide_eq_false_iff_not, not_lt, midnight_le_iff]
    exact tiles.holds.1
  · intro m g ran
    obtain ⟨zone, reading, -, fold⟩ := ground_relative_found c regular shown real long ran
    -- the reference may be less than half a day before, so the order takes the fold of the next one
    refine precedes_of_fold regular zone real ?_ (fold (by decide)) ?_
    · rw [reading]
      exact regular.displays_midnight shown _
    · rw [reading, ← not_le, midnight_le_iff, not_le]
      exact tiles.holds.2
  · intro n m g next h ran later
    obtain ⟨here, reading, -⟩ := ground_relative_found c regular shown real long ran
    obtain ⟨there, follows, -⟩ := ground_relative_found c regular shown real long later
    exact precedes_of_dates (here ▸ regular) (there.trans here.symm) reading follows
      (tiles.increases n)

/-- The week of that Sunday, which is an hour short, is from 25 March to 1 April. -/
theorem paris_sunday_tiles : parisSunday.zone.Regular ∧
    parisSunday.zone.ShowsMidnights ∧ parisSunday.zone.Displays parisSunday.reading ∧
    Grain.day.size ≤ Grain.week.size ∧
    ∃ bucket, Date.Tiles .week 0 parisSunday.date bucket ∧ bucket 0 = ⟨2013, 3, 25⟩ ∧
      bucket 1 = ⟨2013, 4, 1⟩ ∧
      ∃ m next, (relative .week 0).ground { now := parisSunday } parisSunday = .ok (m, .week) ∧
        (relative .week 1).ground { now := parisSunday } parisSunday = .ok (next, .week) ∧
        m.instant ≤ parisSunday.instant ∧ parisSunday.Precedes next ∧ m.Precedes next := by
  have regular : parisSunday.zone.Regular := paris_regular
  have real : parisSunday.zone.Displays parisSunday.reading :=
    (regular.displays_iff _).mpr (by decide +kernel)
  have long : Grain.day.size ≤ Grain.week.size := by decide
  have ran : ∀ n d, ((relative .week n).ground { now := parisSunday } parisSunday).toOption.map
      (·.1.reading.date) = some d → ∃ m g, (relative .week n).ground { now := parisSunday }
        parisSunday = .ok (m, g) ∧ m.reading.date = d := by
    intro n d found
    obtain ⟨⟨m, g⟩, returned, reading⟩ := exists_ok_of_map found
    exact ⟨m, g, returned, reading⟩
  obtain ⟨m, g, here, start⟩ := ran 0 ⟨2013, 3, 25⟩ (by decide +kernel)
  obtain ⟨next, h, there, stop⟩ := ran 1 ⟨2013, 4, 1⟩ (by decide +kernel)
  obtain ⟨bucket, tiles, grounded, first, second, each⟩ := ground_relative_tiles
    { now := parisSunday } .week parisSunday regular paris_shows_midnights real long
  have date : ∀ n m g, (relative .week n).ground { now := parisSunday } parisSunday = .ok (m, g) →
      g = .week ∧ m.reading.date = bucket n := by
    intro n m g ran
    rcases grounded n with ⟨found, returned, -, reading⟩ | ⟨failed, -⟩
    · rw [returned] at ran
      cases ran
      exact ⟨rfl, reading ▸ date_midnight (tiles.proper n)⟩
    · rw [failed] at ran
      cases ran
  obtain ⟨rfl, opening⟩ := date 0 m g here
  obtain ⟨rfl, closing⟩ := date 1 next h there
  exact ⟨regular, paris_shows_midnights, real, long, bucket, tiles, opening ▸ start, closing ▸ stop,
    m, next, here, there, (first m _ here).2, second next _ there, each 0 m _ next _ here there⟩

/-- The first day of the calendar, counted as none from its evening, is out of range. -/
theorem first_day_out_of_range : firstEvening.zone.Regular ∧ firstEvening.zone.ShowsMidnights ∧
    firstEvening.zone.Displays firstEvening.reading ∧
    Date.Tiles .day 0 firstEvening.date (Date.bucketFrom .day 0 firstEvening.date) ∧
    Date.bucketFrom .day 0 firstEvening.date 0 = ⟨1, 1, 1⟩ ∧
    (relative .day 0).ground { now := firstEvening } firstEvening = .error .outOfRange := by
  have one : firstEvening.zone.HasOneOffset := has_one_offset_fixed _ (by decide)
  exact ⟨one.regular, one.shows_midnights, one.displays _,
    Date.tiles_bucket_from le_rfl 0 firstEvening.proper, by decide +kernel, by decide +kernel⟩

end TimeForm

end Reckon

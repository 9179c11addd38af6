import Reckon.Clock.Context
import Reckon.Proofs.Clock.IsoTexts
import Reckon.Proofs.Clock.OneOffset

/-!
# A context rebuilt from its report

A context is made again of the settings that it reports: the text of its moment, the name of its
zone, the label of its grain and the name of its first weekday. The moment passes through UTC on the
way, so it has to lie in the calendar there as well, and its offset must have no seconds; then zone,
grain, week and instant are the same again, and so is the reading if the clock shows it.
-/

set_option autoImplicit false

namespace Reckon

open LocalTime Sequencing

/-! Calm ends of the calendar. -/

namespace Zone

variable {z : Zone} {t u : LocalTime}

theorem Regular.not_skips_of_alike (regular : z.Regular) {opening : Int}
    (alike : z.offsetAt opening = z.offsetAt (opening + 9 * ticksPerDay))
    (inside : Around.Inside opening t) : ¬ z.Skips t := by
  obtain ⟨change, offsets⟩ := regular.lone opening
  have kept : ∀ j, opening ≤ j → j ≤ opening + 9 * ticksPerDay →
      z.offsetAt j = z.offsetAt opening := by
    intro j low high
    rw [offsets j low high, ← alike, ite_self]
  have around : z.Around opening change (z.offsetAt opening) (z.offsetAt opening) :=
    ⟨regular, fun j low high => by rw [kept j low high, ite_self], regular.short _,
      regular.short _, regular.near _ _, regular.near _ _⟩
  rw [around.skips_iff inside]
  omega

/-- The offset is the same some days before and after the first day of the calendar, and so it is
about the last. -/
structure CalmEnds (z : Zone) : Prop where
  first : z.offsetAt (-4 * ticksPerDay) = z.offsetAt (-4 * ticksPerDay + 9 * ticksPerDay)
  last : z.offsetAt (3652054 * ticksPerDay) =
    z.offsetAt (3652054 * ticksPerDay + 9 * ticksPerDay)

theorem new_york_calm_ends : newYork.CalmEnds :=
  ⟨by decide +kernel, by decide +kernel⟩

theorem CalmEnds.representable_near (calm : z.CalmEnds) (regular : z.Regular)
    (skipped : z.Skips t) (representable : t.isRepresentable = true)
    (near : t.ticks - ticksPerDay ≤ u.ticks ∧ u.ticks ≤ t.ticks + ticksPerDay) :
    u.isRepresentable = true := by
  rw [Moment.is_representable_iff] at *
  have early := mt (regular.not_skips_of_alike (t := t) calm.first) (not_not.mpr skipped)
  have late := mt (regular.not_skips_of_alike (t := t) calm.last) (not_not.mpr skipped)
  simp only [Around.Inside, ticks_per_day_eq] at *
  omega

theorem CalmEnds.representable_at_local (calm : z.CalmEnds) (regular : z.Regular)
    (representable : t.isRepresentable = true) (fold : Bool) :
    (Moment.atLocal z t fold).reading.isRepresentable = true := by
  by_cases skipped : z.Skips t
  · have positive := skipped.gap_pos
    have short := regular.gap_lt t
    rw [ticksPerSecond] at short
    rw [Moment.at_local_of_skips skipped]
    refine calm.representable_near regular skipped representable ?_
    cases fold <;> simp only [ticks_per_day_eq, if_true, Bool.false_eq_true, if_false] <;> omega
  · rwa [Moment.at_local_of_displays regular ((regular.displays_iff t).mpr skipped)]

theorem CalmEnds.representable_read_at {m : Moment} (calm : m.zone.CalmEnds)
    (regular : m.zone.Regular) (representable : m.reading.isRepresentable = true) :
    (Moment.readAt m.zone m.instant).reading.isRepresentable = true := by
  by_cases skipped : m.zone.Skips m.reading
  · obtain ⟨i, offset⟩ := exists_offset_at m.zone m.reading m.fold
    have near := regular.near i m.instant
    have back := regular.near m.instant i
    refine calm.representable_near regular skipped representable ?_
    simp only [Moment.readAt, Moment.instant, Moment.offset, instantUnder] at *
    rw [offset] at *
    simp only [ticks_per_day_eq, ticksPerSecond] at *
    omega
  · rwa [Moment.read_at_instant regular ((regular.displays_iff _).mpr skipped)]

end Zone

/-! Contexts. -/

/-- Readings and moments in the calendar, as they are given for references. -/
def Reference.InCalendar : Reference → Prop
  | .reading t => t.isRepresentable = true
  | .moment m => m.reading.isRepresentable = true
  | .text _ | .unsupported _ => True

/-- If the reference is a moment of the context's own zone, the clock shows its reading. -/
def Reference.ShownIn (z : Zone) : Reference → Prop
  | .moment m => m.zone = z → z.Displays m.reading
  | _ => True

namespace Context

def ofReport (zones : String → Option Zone) (r : Report) : Except Failure Context := do
  let grain ← Grain.ofName r.defaultGrain
  makeWith zones (.text r.reference) r.zoneName grain.size (Date.weekdayNames.idxOf r.weekStart)

section Made

variable {zones : String → Option Zone} {reference : Reference} {zoneName : String}
  {grainSize weekStart : Int} {c : Context} {z : Zone} {m : Moment} {text : String}

theorem make_with_ok (made : makeWith zones reference zoneName grainSize weekStart = .ok c) :
    ∃ z m, zones zoneName = some z ∧ (0 ≤ weekStart ∧ weekStart ≤ 6) ∧
      referenceMoment z reference = .ok m ∧ m.inZone z = .ok c.now ∧ c.weekStart = weekStart := by
  obtain ⟨z, zoned, rest⟩ := (bind_ok_iff _ _ _).mp made
  obtain ⟨_, checked, rest⟩ := (bind_ok_iff _ _ _).mp rest
  obtain ⟨m, given, rest⟩ := (bind_ok_iff _ _ _).mp rest
  obtain ⟨now, moved, rest⟩ := (bind_ok_iff _ _ _).mp rest
  obtain ⟨grain, known, same⟩ := (bind_ok_iff _ _ _).mp rest
  cases same
  refine ⟨z, m, ?_, ?_, given, moved, rfl⟩
  · unfold zoneOf at zoned
    split at zoned
    · cases zoned
      assumption
    · cases zoned
  · unfold checkWeekStart at checked
    split at checked
    · rename_i within
      simpa using within
    · cases checked

theorem moment_text_kept (regular : z.Regular) (calm : z.CalmEnds)
    (read : IsoText.moment z text = .ok m) :
    m.reading.isRepresentable = true ∧ m.zone.Displays m.reading := by
  unfold IsoText.moment at read
  split at read
  · cases read
  · rename_i r found
    have valid := IsoText.is_valid_of_of_text? found
    have representable := IsoText.representable_of_is_valid valid
    split at read
    · rename_i offset known
      have one := Zone.has_one_offset_fixed (IsoText.offsetText offset)
        (IsoText.short_of_is_valid valid known)
      have same := Except.ok.inj read
      rw [one.at_local_eq] at same
      subst same
      exact ⟨representable, one.displays _⟩
    · cases read
      refine ⟨calm.representable_at_local regular representable true, ?_⟩
      rw [Moment.at_local_is_in]
      exact Moment.displays_at_local regular _ true

/-- What a reference stands for is in the calendar, and the clock shows it unless it was given as a
moment. -/
theorem reference_moment_kept (regular : z.Regular) (calm : z.CalmEnds)
    (inCalendar : reference.InCalendar) (given : referenceMoment z reference = .ok m) :
    m.reading.isRepresentable = true ∧ (reference = .moment m ∨ m.zone.Displays m.reading) := by
  cases reference with
  | text s =>
      obtain ⟨representable, shown⟩ := moment_text_kept regular calm given
      exact ⟨representable, .inr shown⟩
  | reading t =>
      cases given
      refine ⟨calm.representable_at_local regular inCalendar false, .inr ?_⟩
      rw [Moment.at_local_is_in]
      exact Moment.displays_at_local regular t false
  | moment m =>
      cases given
      exact ⟨inCalendar, .inl rfl⟩
  | unsupported d => cases given

/-- The moment of a context is one of its zone, in the calendar, and the clock shows it, unless it
was given in this zone and the clock does not. -/
theorem now_kept (inCalendar : reference.InCalendar) (regular : c.zone.Regular)
    (calm : c.zone.CalmEnds)
    (made : makeWith zones reference zoneName grainSize weekStart = .ok c) :
    zones zoneName = some c.zone ∧ c.now.reading.isRepresentable = true ∧
      (reference.ShownIn c.zone → c.zone.Displays c.now.reading) := by
  obtain ⟨z, m, named, -, given, moved, -⟩ := make_with_ok made
  obtain rfl : c.zone = z := m.in_zone_is_in z _ moved
  obtain ⟨representable, shown⟩ := reference_moment_kept regular calm inCalendar given
  unfold Moment.inZone at moved
  split at moved
  · rename_i own
    have same := Except.ok.inj moved
    refine ⟨named, same ▸ representable, fun safe => ?_⟩
    rw [← same]
    rcases shown with rfl | displayed
    · exact safe own
    · exact own ▸ displayed
  · unfold Moment.ofInstant at moved
    simp only at moved
    split at moved
    · rename_i inside
      obtain ⟨-, inside⟩ := (Bool.and_eq_true _ _).mp inside
      have same := Except.ok.inj moved
      exact ⟨named, same ▸ inside, fun _ => ⟨m.instant, congrArg Moment.reading same⟩⟩
    · cases moved

end Made

section Reports

variable {zones : String → Option Zone} {c : Context}

theorem of_name_label (g : Grain) : Grain.ofName g.label = .ok g := by
  cases g <;> decide +kernel

theorem idx_of_week_start {weekStart : Int} (within : 0 ≤ weekStart ∧ weekStart ≤ 6) :
    (Date.weekdayNames.idxOf (Date.weekdayNames.getD weekStart.toNat "") : Int) = weekStart := by
  have all : ∀ n < 7, Date.weekdayNames.idxOf (Date.weekdayNames.getD n "") = n := by decide
  rw [all _ (by omega)]
  omega

theorem moment_render {m : Moment} (z : Zone) (representable : m.reading.isRepresentable = true)
    (short : -86400 < m.offset ∧ m.offset < 86400) :
    IsoText.moment z (IsoText.render m) =
      if m.offset % 60 = 0 then
        .ok ⟨Zone.fixed (IsoText.offsetText m.offset) m.offset, m.reading, true⟩
      else .error (.unreadableTime (IsoText.render m)) := by
  rw [IsoText.moment, IsoText.of_text?_render representable short]
  split_ifs
  · have one := Zone.has_one_offset_fixed (IsoText.offsetText m.offset) short
    simp only [IsoText.readingOf, one.at_local_eq, Moment.date, IsoText.make_fields]
  · rfl

theorem fixed_ne_named {zones : String → Option Zone} {z : Zone}
    (named : zones z.name = some z) (signless : ∀ offset, zones (IsoText.offsetText offset) = none)
    (offset : Int) : Zone.fixed (IsoText.offsetText offset) offset ≠ z := by
  rintro rfl
  have own : (Zone.fixed (IsoText.offsetText offset) offset).name = IsoText.offsetText offset := rfl
  rw [own, signless] at named
  cases named

theorem instant_fixed {m : Moment} (short : -86400 < m.offset ∧ m.offset < 86400) :
    (Moment.mk (Zone.fixed (IsoText.offsetText m.offset) m.offset) m.reading true).instant =
      m.instant := by
  have one := Zone.has_one_offset_fixed (IsoText.offsetText m.offset) short
  rw [Moment.instant, Moment.offset, one.offset_of_eq]
  rfl

theorem of_report_report_eq (named : zones c.zone.name = some c.zone)
    (signless : ∀ offset, zones (IsoText.offsetText offset) = none) (regular : c.zone.Regular)
    (calm : c.zone.CalmEnds) (week : 0 ≤ c.weekStart ∧ c.weekStart ≤ 6)
    (representable : c.now.reading.isRepresentable = true) :
    ofReport zones c.report =
      if c.now.offset % 60 = 0 then
        if (LocalTime.mk c.now.instant).isRepresentable then
          .ok { c with now := Moment.readAt c.zone c.now.instant }
        else .error .outOfRange
      else .error (.unreadableTime (IsoText.render c.now)) := by
  have short : -86400 < c.now.offset ∧ c.now.offset < 86400 := by
    obtain ⟨i, offset⟩ := Zone.exists_offset_at c.now.zone c.now.reading c.now.fold
    rw [Moment.offset, offset]
    exact regular.short i
  have shown := calm.representable_read_at (m := c.now) regular representable
  have moved : (Moment.mk (Zone.fixed (IsoText.offsetText c.now.offset) c.now.offset)
      c.now.reading true).inZone c.zone =
        if (LocalTime.mk c.now.instant).isRepresentable then
          .ok (Moment.readAt c.zone c.now.instant) else .error .outOfRange := by
    rw [Moment.inZone, if_neg (fixed_ne_named named signless _), instant_fixed short,
        Moment.ofInstant]
    simp only [zone, shown, Bool.and_true]
  simp only [ofReport, report, makeWith, of_name_label, zoneOf, named, checkWeekStart, grainOf,
    Grain.of_size?_size, idx_of_week_start week, week, decide_true, Bool.and_self, if_true,
    referenceMoment, bind, Except.bind, moment_render c.zone representable short]
  split_ifs with whole inside
  · simp only [moved, inside, if_true]
    rfl
  · simp only [moved, inside]
    rfl
  · rfl

/-- A context with the settings of another and its moment at the same instant. -/
structure Rebuilds (c d : Context) : Prop where
  zone : d.zone = c.zone
  instant : d.now.instant = c.now.instant
  defaultGrain : d.defaultGrain = c.defaultGrain
  weekStart : d.weekStart = c.weekStart

end Reports

/-- A context can be rebuilt from its report if its offset has no seconds and its instant lies in
the calendar by UTC as well; else making it again fails. It has the same settings and stands for the
same instant, with the same reading if the clock shows that, which it does unless the reference was
given as a moment that it does not show. -/
theorem of_report_report (zones : String → Option Zone) (reference : Reference)
    (inCalendar : reference.InCalendar) (zoneName : String) (grainSize weekStart : Int)
    (c : Context) (made : makeWith zones reference zoneName grainSize weekStart = .ok c)
    (named : c.zone.name = zoneName)
    (signless : ∀ offset, zones (IsoText.offsetText offset) = none) (regular : c.zone.Regular)
    (calm : c.zone.CalmEnds) :
    (c.now.offset % 60 = 0 → (LocalTime.mk c.now.instant).isRepresentable = true →
      ∃ d, ofReport zones c.report = .ok d ∧ c.Rebuilds d ∧
        (d.now.reading = c.now.reading ↔ c.zone.Displays c.now.reading)) ∧
    (c.now.offset % 60 = 0 → (LocalTime.mk c.now.instant).isRepresentable = false →
      ofReport zones c.report = .error .outOfRange) ∧
    (c.now.offset % 60 ≠ 0 →
      ofReport zones c.report = .error (.unreadableTime c.report.reference)) ∧
    (reference.ShownIn c.zone → c.zone.Displays c.now.reading) := by
  obtain ⟨found, representable, displayed⟩ := now_kept inCalendar regular calm made
  obtain ⟨-, -, -, week, -, -, started⟩ := make_with_ok made
  rw [← started] at week
  rw [← named] at found
  have rebuilt := of_report_report_eq found signless regular calm week representable
  refine ⟨fun whole inside => ?_, fun whole outside => ?_, fun seconds => ?_, displayed⟩
  · rw [if_pos whole, if_pos inside] at rebuilt
    refine ⟨{ c with now := Moment.readAt c.zone c.now.instant }, rebuilt,
      ⟨rfl, Moment.instant_read_at regular _, rfl, rfl⟩, fun same => ?_, fun shown => ?_⟩
    · rw [← same]
      exact ⟨c.now.instant, rfl⟩
    · exact Moment.read_at_instant (m := c.now) regular shown
  · rw [if_pos whole, if_neg (by rw [outside]; exact Bool.false_ne_true)] at rebuilt
    exact rebuilt
  · rw [if_neg seconds] at rebuilt
    exact rebuilt

def newYorkOnly (name : String) : Option Zone :=
  if name = "America/New_York" then some Zone.newYork else none

theorem new_york_only_signless (offset : Int) : newYorkOnly (IsoText.offsetText offset) = none := by
  refine if_neg fun same => ?_
  have first := congrArg (·.toList.head?) same
  simp only [IsoText.to_list_offset_text, List.head?_cons] at first
  rcases IsoText.sign_of_cases offset with sign | sign
  · rw [sign] at first
    revert first
    decide
  · rw [sign] at first
    revert first
    decide

/-- The second time that the clock shows half past one is told apart by its offset. -/
theorem new_york_rebuilds : (Reference.text "2013-11-03T01:30:00").InCalendar ∧
    (∀ offset, newYorkOnly (IsoText.offsetText offset) = none) ∧
    ∃ c, makeWith newYorkOnly (.text "2013-11-03T01:30:00") "America/New_York" 3 6 = .ok c ∧
      c.zone.name = "America/New_York" ∧ c.zone.Regular ∧ c.zone.CalmEnds ∧
      c.report = ⟨"2013-11-03T01:30:00-05:00", "America/New_York", "day", "sunday"⟩ ∧
      ∃ d, ofReport newYorkOnly c.report = .ok d ∧ c.Rebuilds d ∧
        d.now.reading = c.now.reading := by
  have made : Option.map
      (fun c => (c.report, c.now.offset, (LocalTime.mk c.now.instant).isRepresentable, c.zone))
      (makeWith newYorkOnly (.text "2013-11-03T01:30:00") "America/New_York" 3 6).toOption =
        some (⟨"2013-11-03T01:30:00-05:00", "America/New_York", "day", "sunday"⟩, -18000, true,
          Zone.newYork) := by
    decide +kernel
  obtain ⟨c, ran, shown⟩ := exists_ok_of_map made
  obtain ⟨reported, offset, inside, zone⟩ : c.report = _ ∧ c.now.offset = -18000 ∧
      (LocalTime.mk c.now.instant).isRepresentable = true ∧ c.zone = Zone.newYork := by
    simpa using shown
  have name : c.zone.name = "America/New_York" := by
    rw [zone]
    rfl
  have regular : c.zone.Regular := zone.symm ▸ Zone.new_york_regular
  have calm : c.zone.CalmEnds := zone.symm ▸ Zone.new_york_calm_ends
  obtain ⟨rebuilt, -, -, displayed⟩ := of_report_report newYorkOnly (.text "2013-11-03T01:30:00")
    trivial "America/New_York" 3 6 c ran name new_york_only_signless regular calm
  obtain ⟨d, again, same, reading⟩ := rebuilt (by rw [offset]; decide) inside
  exact ⟨trivial, new_york_only_signless, c, ran, name, regular, calm, reported, d, again, same,
    reading.mpr (displayed trivial)⟩

/-- The last evening of the calendar west of UTC can be given as a reading, but not as an instant;
and an offset with seconds, as that of local mean time, is not read back. -/
theorem last_evening_not_rebuilt :
    (Reference.reading (LocalTime.make ⟨9999, 12, 31⟩ 22 0 0 0)).InCalendar ∧
      (make (.reading (LocalTime.make ⟨9999, 12, 31⟩ 22 0 0 0)) "America/New_York" 0 0).map report =
        .ok ⟨"9999-12-31T22:00:00-05:00", "America/New_York", "second", "monday"⟩ ∧
      ofReport Zone.ofName? ⟨"9999-12-31T22:00:00-05:00", "America/New_York", "second", "monday"⟩ =
        .error .outOfRange ∧
    (Reference.reading (LocalTime.make ⟨1850, 1, 1⟩ 0 0 0 0)).InCalendar ∧
      (make (.reading (LocalTime.make ⟨1850, 1, 1⟩ 0 0 0 0)) "Asia/Tokyo" 0 0).map report =
        .ok ⟨"1850-01-01T00:00:00+09:18:59", "Asia/Tokyo", "second", "monday"⟩ ∧
      ofReport Zone.ofName? ⟨"1850-01-01T00:00:00+09:18:59", "Asia/Tokyo", "second", "monday"⟩ =
        .error (.unreadableTime "1850-01-01T00:00:00+09:18:59") := by
  refine ⟨show (LocalTime.make ⟨9999, 12, 31⟩ 22 0 0 0).isRepresentable = true by decide +kernel,
    ?_, ?_, show (LocalTime.make ⟨1850, 1, 1⟩ 0 0 0 0).isRepresentable = true by decide +kernel,
    ?_, ?_⟩ <;> decide +kernel

end Context

end Reckon

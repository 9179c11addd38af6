import Mathlib
import Reckon.Proofs.English.DurationForests

/-!
# Durations of counted units

What the rules build in a text of counted units: for each part a count and a unit, of these a
duration, and of the parts from any place on, if their units go from coarse to fine, one duration.
-/

set_option autoImplicit false

namespace Reckon.English

open Forest Sequencing
open Pattern hiding some

theorem offers_unit (g : Grain) :
    ∃ p, Durations.unitWord = whole p ∧ Offers g.unit p := by
  have plural {word : String} {stem : Pattern} (offers : Offers word stem) :
      Offers (word ++ "s") (Durations.plural stem) :=
    offers.seq (offers_literal "s").optional
  have long (short more : String) :
      Offers (short ++ more) (.seq (literal short) (.optional (literal more))) :=
    (offers_literal short).seq (offers_literal more).optional
  refine ⟨_, rfl, ?_⟩
  cases g with
  | second => exact offers_any_of (plural (long "sec" "ond")) (.head _)
  | minute => exact offers_any_of (plural (long "min" "ute")) (.tail _ (.head _))
  | hour => exact offers_any_of (plural (offers_literal "hour")) (by simp)
  | day => exact offers_any_of (plural (offers_literal "day")) (by simp)
  | week => exact offers_any_of (plural (offers_literal "week")) (by simp)
  | month => exact offers_any_of (plural (offers_literal "month")) (by simp)
  | year => exact offers_any_of (plural (offers_literal "year")) (by simp)

namespace DurationText

variable {rs : RuleSet Value} {readings : Readings} {text : Array Char} {total : Nat}
  {slot : Nat → Slot} {i j : Nat}

/-! What is found in the text. -/

theorem le_of_start_le (only : DurationText text total slot) (inside : j < total)
    (before : (slot j).start ≤ (slot i).stop) : j ≤ i := by
  by_contra after
  have apart := only.stop_lt_start (Nat.not_le.mp after) inside
  omega

theorem plain_digits_matches (only : DurationText text total slot) (known : i < total) :
    ∃ m, Numbers.plainDigits.matchAt text (slot i).start = some m := by
  have lies := only.lies i known
  have clear {cls : CharClass} (refuses : cls.accepts ' ' = false) :
      ∀ before, before + 1 = (slot i).start → ¬ClassAt text before cls := by
    rintro before place ⟨c, here, accepted⟩
    obtain rfl := Option.some.inj ((only.space_before known place).symm.trans here)
    rw [refuses] at accepted
    cases accepted
  have fresh : (⟨(slot i).start, []⟩ : Cursor) ∈
      Numbers.freshDigits.run text ⟨(slot i).start, []⟩ :=
    List.mem_flatMap.mpr ⟨_, mem_run_not_behind.mpr ⟨not_preceded_by [] (clear (by decide)), rfl⟩,
      mem_run_not_behind.mpr ⟨not_preceded_by [.digit] (clear (by decide)), rfl⟩⟩
  have last {p : Pattern} (solid : p.mayBeEmpty = false)
      (refused : ∀ cls ∈ p.openings, cls.accepts ' ' = false) :
      p.run text ⟨(slot i).gap, []⟩ = [] := by
    apply run_eq_nil_of_opens solid
    intro c here
    obtain rfl := Option.some.inj (lies.space.symm.trans here)
    exact refused
  have within := only.stop_le known
  have unit := (slot i).gap_lt_stop
  have reached : (⟨(slot i).gap, []⟩ : Cursor) ∈
      Numbers.plainDigits.run text ⟨(slot i).start, []⟩ := by
    refine mem_run_sequence.mpr ⟨_, fresh, mem_run_sequence.mpr
      ⟨_, mem_run_digits lies.digits_from (slot i).start_lt_gap (by omega), ?_⟩⟩
    exact mem_run_sequence_not_ahead.mpr ⟨last (by decide) (by decide),
      mem_run_sequence_not_ahead.mpr ⟨last (by decide) (by decide), mem_run_sequence_nil.mpr rfl⟩⟩
  exact exists_match_at reached

theorem plain_digits_found (only : DurationText text total slot) (known : i < total) :
    ∃ m ∈ Numbers.plainDigits.findAll text, m.start = (slot i).start ∧ m.stop = (slot i).gap ∧
      m.content = Nat.toDigits 10 (slot i).count := by
  obtain ⟨m, matched⟩ := only.plain_digits_matches known
  obtain ⟨start, -, -, content⟩ := match_at_range text _ _ m matched
  obtain ⟨j, inside, place, stop⟩ := only.plain_at_place (plain_at_of_match matched)
  have order := (slot i).start_lt_stop
  have orderToo := (slot j).start_lt_stop
  obtain rfl : i = j := only.eq_of_overlap known inside (by omega) (by omega)
  have within := only.stop_le known
  refine ⟨m, ?_, start, stop, by rw [content, start, stop, (only.lies i known).digits]⟩
  apply mem_find_from (start ▸ matched) (Nat.zero_le _) (by omega) (by omega)
  intro earlier _ before n found
  have way := matches_at_of_match_at found
  have starts := way.range.1
  have forward := way.covers (by decide)
  obtain ⟨k, inside, rfl, last⟩ := only.plain_at_place (plain_at_of_match found)
  have apart : k < i := by
    have behind := only.le_of_start_le (i := i) inside (by omega)
    refine Nat.lt_of_le_of_ne behind ?_
    rintro rfl
    omega
  have ahead := only.stop_lt_start apart known
  have unit := (slot k).gap_lt_stop
  omega

theorem unit_word_found (only : DurationText text total slot) (known : i < total) :
    ∃ m ∈ Durations.unitWord.findAll text, m.start = (slot i).gap + 1 ∧ m.stop = (slot i).stop ∧
      m.content = (slot i).grain.unit.toList := by
  have lies := only.lies i known
  have within := only.stop_le known
  have unit := (slot i).gap_lt_stop
  obtain ⟨p, shape, offers⟩ := offers_unit (slot i).grain
  obtain ⟨m, matched⟩ := offers.match_at lies.unit (by omega)
  rw [← shape] at matched
  obtain ⟨start, -, -, content⟩ := match_at_range text _ _ m matched
  obtain ⟨word, listed, stands, stop⟩ := Durations.unit_word_stands matched
  have same := stands.unique lies.unit (Durations.unit_names_plain word listed) (unit_plain _)
  rw [same, ← Slot.stop] at stop
  refine ⟨m, ?_, start, stop, by rw [content, start, stop, lies.name]⟩
  apply mem_find_from (start ▸ matched) (Nat.zero_le _) (by omega) (by omega)
  intro earlier _ before n found
  have way := matches_at_of_match_at found
  have starts := way.range.1
  have forward := way.covers (by decide)
  obtain ⟨other, listed, stands, last⟩ := Durations.unit_word_stands found
  obtain ⟨k, inside, rfl, rfl⟩ := only.stands_unit stands (Durations.unit_names_plain other listed)
  rw [← Slot.stop] at last
  have digits := (slot k).start_lt_gap
  have apart : k < i := by
    have behind := only.le_of_start_le (i := i) inside (by omega)
    refine Nat.lt_of_le_of_ne behind ?_
    rintro rfl
    omega
  have ahead := only.stop_lt_start apart known
  have digitsToo := (slot i).start_lt_gap
  omega

/-! What is built of it. -/

section Nodes

variable (only : DurationText text total slot) (english : rs.rules = rulesWith readings)
  (readable : ∀ i < total, (Nat.toDigits 10 (slot i).count).length ≤ digitLimit)

include only english

include readable in
theorem derives_count (known : i < total) :
    ∃ node, Derives rs text node ∧ node.chars = ⟨(slot i).start, (slot i).gap⟩ ∧
      node.value = .number { value := .int (slot i).count } := by
  obtain ⟨m, found, start, stop, content⟩ := only.plain_digits_found known
  have rule : ⟨"number: digits", [.text Numbers.plainDigits], Numbers.digits⟩ ∈ rs.rules := by
    rw [english]
    simp [rulesWith, Numbers.rules]
  have read : readInteger m.content = .ok (slot i).count := by
    rw [content, readInteger, Text.digit_count_to_digits,
      if_neg (Nat.not_lt.mpr (readable i known)), Text.read_nat_to_digits]
  have made : Numbers.digits [.text m] =
      .ok (some (.number { value := .int (slot i).count })) := by
    rw [Numbers.digits, read]
    rfl
  exact derives_of_spread rule (by decide) (spread_text_iff.mpr
      ⟨m, found, start, stop, rfl, rfl⟩) made
    (slot i).start_lt_gap (by simp)

theorem derives_unit (known : i < total) :
    ∃ node, Derives rs text node ∧ node.chars = ⟨(slot i).gap + 1, (slot i).stop⟩ ∧
      node.value = .timeGrain { grain := (slot i).grain } := by
  obtain ⟨m, found, start, stop, content⟩ := only.unit_word_found known
  have rule : ⟨"duration: unit", [.text Durations.unitWord], Durations.grain⟩ ∈ rs.rules := by
    rw [english]
    simp [rulesWith, Durations.rules]
  exact derives_of_spread rule (by decide) (spread_text_iff.mpr ⟨m, found, start, stop, rfl, rfl⟩)
    (grain_unit content) (slot i).gap_lt_stop (by simp)

include readable in
theorem derives_part (known : i < total) :
    ∃ node, Derives rs text node ∧ node.chars = ⟨(slot i).start, (slot i).stop⟩ ∧
      node.value = .duration { period := [((slot i).grain, ((slot i).count : Int))] } := by
  obtain ⟨left, derives, chars, value⟩ := only.derives_count english readable known
  obtain ⟨right, derivesToo, charsToo, valueToo⟩ := only.derives_unit english known
  have rule : ⟨"duration: count unit", [Test.number Durations.isCount, Test.timeGrain],
      Durations.counted⟩ ∈ rs.rules := by
    rw [english]
    simp [rulesWith, Durations.rules]
  have laid : Spread text [Test.number Durations.isCount, Test.timeGrain] (slot i).start
      [.value left.value, .value right.value] [left, right] (slot i).stop := by
    refine spread_value_value_iff.mpr
      ⟨left, right, by rw [chars], ?_, ?_, ?_, by rw [charsToo, Int.toNat_natCast], rfl, rfl⟩
    · rw [value]
      simp [Value.part?, Durations.isCount, Numbers.isNonNegative, Numeral.isInt, Numeral.int?,
        Numeral.le]
    · rw [chars, charsToo, Int.toNat_natCast, only.gap_end_gap known]
      rfl
    · rw [valueToo]
      rfl
  have made : Durations.counted [.value left.value, .value right.value] =
      .ok (some (.duration { period := [((slot i).grain, ((slot i).count : Int))] })) := by
    rw [value, valueToo]
    rfl
  exact derives_of_spread rule rfl laid made (slot i).start_lt_stop (by simp [derives, derivesToo])

theorem derives_joined (more : i + 1 < total) {left right : Node Value} {n : Int}
    {b : DurationValue} {stop : Nat} (derives : Derives rs text left)
    (chars : left.chars = ⟨(slot i).start, (slot i).stop⟩)
    (value : left.value = .duration { period := [((slot i).grain, n)] })
    (derivesToo : Derives rs text right) (charsToo : right.chars = ⟨(slot (i + 1)).start, stop⟩)
    (valueToo : right.value = .duration b) (some : b.period ≠ [])
    (finer : ∀ part ∈ b.period, part.1.size < (slot i).grain.size)
    (forward : (slot i).start < stop) :
    ∃ node, Derives rs text node ∧ node.chars = ⟨(slot i).start, stop⟩ ∧
      node.value = .duration { period := ((slot i).grain, n) :: b.period } := by
  have rule : ⟨"duration: composite",
      [Test.duration Test.any, .text Durations.joint, Test.duration Test.any],
      Durations.composite⟩ ∈ rs.rules := by
    rw [english]
    simp [rulesWith, Durations.rules, Durations.joint]
  have within := only.stop_le (show i < total by omega)
  have range := gap_end_range text (slot i).stop
  obtain ⟨m, empty, between⟩ : ∃ m : Match, ¬m.start < m.stop ∧
      Durations.joint.matchAt text (Text.gapEnd text (slot i).stop) = Option.some m :=
    ⟨_, Nat.lt_irrefl _, only.joint_between (by omega)⟩
  have laid : Spread text
      [Test.duration Test.any, .text Durations.joint, Test.duration Test.any] (slot i).start
      [.value left.value, .text m, .value right.value] [left, right] stop := by
    refine spread_value_text_value_iff.mpr
      ⟨left, right, m, by rw [chars], ?_, ?_, ?_, ?_, ?_, rfl, rfl⟩
    · rw [value]
      rfl
    · rw [chars, Int.toNat_natCast, between]
    · rw [chars, charsToo, if_neg empty, Int.toNat_natCast, only.gap_end_stop more]
    · rw [valueToo]
      rfl
    · rw [charsToo, Int.toNat_natCast]
  have made : Durations.composite [.value left.value, .text m, .value right.value] =
      .ok (Option.some (.duration { period := ((slot i).grain, n) :: b.period })) := by
    rw [value, valueToo, Durations.composite, Durations.merge_single some finer]
    rfl
  exact derives_of_spread rule rfl laid made forward (by simp [derives, derivesToo])

include readable in
/-- The parts from a place on are one duration. -/
theorem derives_parts
    (finer : ∀ i j, i < j → j < total → (slot j).grain.size < (slot i).grain.size)
    {more : Nat} (inside : i + more < total) :
    ∃ node, Derives rs text node ∧ node.chars = ⟨(slot i).start, (slot (i + more)).stop⟩ ∧
      node.value = .duration { period := periodFrom slot i (more + 1) } := by
  induction more generalizing i with
  | zero => exact only.derives_part english readable inside
  | succ more ih =>
      obtain ⟨left, derives, chars, value⟩ :=
        only.derives_part english readable (show i < total by omega)
      obtain ⟨right, derivesToo, charsToo, valueToo⟩ :=
        ih (i := i + 1) (show i + 1 + more < total by omega)
      rw [Nat.add_assoc, Nat.add_comm 1 more] at charsToo
      have descends : ∀ part ∈ periodFrom slot (i + 1) (more + 1),
          part.1.size < (slot i).grain.size := by
        intro part listed
        obtain ⟨k, place, rfl⟩ := List.mem_map.mp listed
        obtain ⟨after, before⟩ := List.mem_range'_1.mp place
        exact finer i k (by omega) (by omega)
      have first := (slot i).start_lt_stop
      have behind := only.stop_lt_start (show i < i + (more + 1) by omega) inside
      have last := (slot (i + (more + 1))).start_lt_stop
      exact only.derives_joined english (by omega) derives chars value derivesToo charsToo valueToo
        (by simp [periodFrom]) descends (by omega)

end Nodes

end DurationText

end Reckon.English

import Mathlib
import Reckon.Proofs.English.DurationReadings
import Reckon.Proofs.English.DurationRules

/-!
# Forests of counted units

All trees that the rules build in a text of counted units: the counts, what a bare count may stand
for, the units, and for each bracketing of successive parts a duration. So a place of the text and
the shape of a tree determine the tree, which bounds their number.
-/

set_option autoImplicit false

namespace Reckon.English

open Forest
open Pattern hiding some

/-- What a node stands for. Of a duration, the shape tells how its parts are bracketed. -/
inductive Role where
  | count | temperature | year | hour | unit
  | length (shape : BinaryTree Unit)

def periodFrom (slot : Nat → Slot) (i width : Nat) : Period :=
  (List.range' i width).map fun k => ((slot k).grain, ((slot k).count : Int))

theorem period_from_append (slot : Nat → Slot) (i width more : Nat) :
    periodFrom slot i width ++ periodFrom slot (i + width) more =
      periodFrom slot i (width + more) := by
  rw [periodFrom, periodFrom, periodFrom, ← List.map_append, List.range'_append_1]

namespace Role

def width : Role → Nat
  | length shape => shape.numNodes + 1
  | count | temperature | year | hour | unit => 1

def height : Role → Nat
  | length shape => shape.numNodes + 2
  | temperature | year | hour => 2
  | count | unit => 1

variable (slot : Nat → Slot) (i : Nat)

def span : Role → Span
  | length shape => ⟨(slot i).start, (slot (i + shape.numNodes)).stop⟩
  | count | temperature | year | hour => ⟨(slot i).start, (slot i).gap⟩
  | unit => ⟨(slot i).gap + 1, (slot i).stop⟩

def countKey : TreeKey :=
  .mk "number: digits" (slot i).start (slot i).gap []

def unitKey : TreeKey :=
  .mk "duration: unit" ((slot i).gap + 1) (slot i).stop []

def lengthKey : BinaryTree Unit → Nat → TreeKey
  | .nil, i =>
    .mk "duration: count unit" (slot i).start (slot i).stop [countKey slot i, unitKey slot i]
  | .node _ left right, i =>
    .mk "duration: composite" (slot i).start
      (slot (i + left.numNodes + 1 + right.numNodes)).stop
      [lengthKey left i, lengthKey right (i + left.numNodes + 1)]

def key : Role → TreeKey
  | count => countKey slot i
  | temperature =>
    .mk "temperature: bare number" (slot i).start (slot i).gap [countKey slot i]
  | year => .mk "datetime: bare year" (slot i).start (slot i).gap [countKey slot i]
  | hour => .mk "datetime: bare hour" (slot i).start (slot i).gap [countKey slot i]
  | unit => unitKey slot i
  | length shape => lengthKey slot shape i

def Holds : Role → Value → Prop
  | count, v => v = .number { value := .int (slot i).count }
  | temperature, v => ∃ x, v = .temperature { value := x, latent := true }
  | year, v => ∃ year, v = Datetimes.latentForm (.calendar { year })
  | hour, v => ∃ t, v = Datetimes.latentForm (.timeOfDay t)
  | unit, v => v = .timeGrain { grain := (slot i).grain }
  | length shape, v => v = .duration { period := periodFrom slot i (shape.numNodes + 1) }

end Role

/-- A node with a role that goes over parts of the text from a place on. -/
structure Plays (total : Nat) (slot : Nat → Slot) (role : Role) (i : Nat) (node : Node Value) :
    Prop where
  inside : i + role.width ≤ total
  chars : node.chars = role.span slot i
  value : role.Holds slot i node.value
  key : node.key = role.key slot i
  low : node.height ≤ role.height

def HasRole (total : Nat) (slot : Nat → Slot) (node : Node Value) : Prop :=
  ∃ role i, Plays total slot role i node

section Roles

variable {total : Nat} {slot : Nat → Slot} {i : Nat} {node : Node Value} {role : Role}

theorem Role.Holds.bare {v : Value} (holds : role.Holds slot i v) : Bare v := by
  cases role with
  | count =>
      rw [show v = _ from holds]
      exact .number _
  | temperature =>
      obtain ⟨x, rfl⟩ := holds
      exact .temperature x
  | year =>
      obtain ⟨year, rfl⟩ := holds
      exact .year year
  | hour =>
      obtain ⟨t, rfl⟩ := holds
      exact .hour t
  | unit =>
      rw [show v = _ from holds]
      exact .unit _
  | length shape =>
      rw [show v = _ from holds]
      exact .duration _

theorem HasRole.bare (known : HasRole total slot node) : Bare node.value := by
  obtain ⟨role, i, plays⟩ := known
  exact plays.value.bare

theorem HasRole.count (known : HasRole total slot node) {n : NumberValue}
    (value : node.value = .number n) :
    ∃ i, n = { value := .int (slot i).count } ∧ Plays total slot .count i node := by
  obtain ⟨role, i, plays⟩ := known
  have holds := plays.value
  rw [value] at holds
  cases role with
  | count =>
      cases holds
      exact ⟨i, rfl, plays⟩
  | temperature | year | hour =>
      obtain ⟨_, same⟩ := holds
      cases same
  | unit | length shape => cases holds

theorem HasRole.unit (known : HasRole total slot node) {g : TimeGrainValue}
    (value : node.value = .timeGrain g) :
    ∃ i, g = { grain := (slot i).grain } ∧ Plays total slot .unit i node := by
  obtain ⟨role, i, plays⟩ := known
  have holds := plays.value
  rw [value] at holds
  cases role with
  | unit =>
      cases holds
      exact ⟨i, rfl, plays⟩
  | temperature | year | hour =>
      obtain ⟨_, same⟩ := holds
      cases same
  | count | length shape => cases holds

theorem HasRole.length (known : HasRole total slot node) {d : DurationValue}
    (value : node.value = .duration d) :
    ∃ i shape, d = { period := periodFrom slot i (shape.numNodes + 1) } ∧
      Plays total slot (.length shape) i node := by
  obtain ⟨role, i, plays⟩ := known
  have holds := plays.value
  rw [value] at holds
  cases role with
  | length shape =>
      cases holds
      exact ⟨i, shape, rfl, plays⟩
  | temperature | year | hour =>
      obtain ⟨_, same⟩ := holds
      cases same
  | count | unit => cases holds

theorem HasRole.hour (known : HasRole total slot node) {v : DatetimeValue} {t : ClockTime}
    (value : node.value = .datetime v) (form : v.form = .timeOfDay t) :
    ∃ i, Plays total slot .hour i node := by
  obtain ⟨role, i, plays⟩ := known
  have holds := plays.value
  rw [value] at holds
  cases role with
  | hour => exact ⟨i, plays⟩
  | year =>
      obtain ⟨_, same⟩ := holds
      cases same
      cases form
  | temperature =>
      obtain ⟨_, same⟩ := holds
      cases same
  | count | unit | length shape => cases holds

end Roles

/-! What each rule builds. -/

/-- Whatever a rule makes of nodes with roles plays a role. -/
def Settles (text : Array Char) (total : Nat) (slot : Nat → Slot) (r : Rule Value) : Prop :=
  ∀ (start stop : Nat) (findings : List (Finding Value)) (children : List (Node Value)) (v : Value),
    Spread text r.items start findings children stop → r.produce findings = .ok (some v) →
      (∀ child ∈ children, HasRole total slot child) →
        ∃ (role : Role) (i : Nat), i + role.width ≤ total ∧
          role.span slot i = ⟨start, stop⟩ ∧ role.Holds slot i v ∧
          role.key slot i = .mk r.name start stop (Node.keys children) ∧
          1 + Node.tallest children ≤ role.height

section Rules

variable {text : Array Char} {total : Nat} {slot : Nat → Slot} {r : Rule Value}
  {node : Node Value}

theorem Settles.known (settles : Settles text total slot r) (built : Builds text r node)
    (parts : ∀ child ∈ node.children, HasRole total slot child) : HasRole total slot node := by
  obtain ⟨findings, ⟨start, stop, v, spread, ran, -, shape⟩, -⟩ := built
  obtain ⟨role, i, inside, span, holds, key, low⟩ :=
    settles start stop findings node.children v spread ran parts
  rw [shape]
  exact ⟨role, i, inside, span.symm, holds, key.symm, low⟩

theorem Sterile.settles (sterile : Sterile text r) : Settles text total slot r := by
  intro start stop findings children v spread ran known
  exact absurd spread (sterile.not_spread fun child member => (known child member).bare)

section Idle

variable {name : String} {first second third : Item Value} {rest : List (Item Value)}
  {produce : List (Finding Value) → Produced}

theorem settles_first (idle : Idle text first) :
    Settles text total slot ⟨name, first :: rest, produce⟩ :=
  Sterile.settles ⟨first, .head _, idle⟩

theorem settles_second (idle : Idle text second) :
    Settles text total slot ⟨name, first :: second :: rest, produce⟩ :=
  Sterile.settles ⟨second, .tail _ (.head _), idle⟩

theorem settles_third (idle : Idle text third) :
    Settles text total slot ⟨name, first :: second :: third :: rest, produce⟩ :=
  Sterile.settles ⟨third, .tail _ (.tail _ (.head _)), idle⟩

end Idle

theorem bare_settle {name : String} {test : NumberValue → Bool}
    {produce : List (Finding Value) → Produced} (role : Role) (width : role.width = 1)
    (height : role.height = 2)
    (span : ∀ i, role.span slot i = Role.count.span slot i)
    (key : ∀ i, role.key slot i =
      .mk name (slot i).start (slot i).gap [Role.count.key slot i])
    (holds : ∀ n v, produce [.value (.number n)] = .ok (some v) → ∀ i, role.Holds slot i v) :
    Settles text total slot ⟨name, [Test.number test], produce⟩ := by
  intro start stop findings children v spread ran known
  obtain ⟨child, begins, passed, ends, rfl, rfl⟩ := spread_value_iff.mp spread
  obtain ⟨n, value, -⟩ := holds_of .number (Except.ok.inj passed)
  obtain ⟨i, -, plays⟩ := (known child List.mem_cons_self).count value
  rw [value] at ran
  have inside := plays.inside
  have chars : child.chars = ⟨(slot i).start, (slot i).gap⟩ := plays.chars
  have low : child.height ≤ 1 := plays.low
  rw [chars] at begins ends
  obtain rfl : (slot i).start = start := Int.ofNat.inj begins
  obtain rfl : (slot i).gap = stop := by simpa using ends
  refine ⟨role, i, by rw [width]; exact inside, span i, holds n v ran i, ?_, ?_⟩
  · rw [key, Node.keys, Node.keys, plays.key]
  · rw [height, Node.tallest, Node.tallest]
    omega

theorem bare_temperature_settle : Settles text total slot
    ⟨"temperature: bare number", [Test.number Test.any], Measures.bareTemperature⟩ := by
  apply bare_settle .temperature rfl rfl (fun _ => rfl) (fun _ => rfl)
  intro n v ran i
  obtain ⟨x, -, made⟩ := (Sequencing.bind_ok_iff _ _ _).mp ran
  cases made
  exact ⟨_, rfl⟩

theorem bare_year_settle : Settles text total slot
    ⟨"datetime: bare year", [Datetimes.year], Datetimes.bareYear⟩ := by
  apply bare_settle .year rfl rfl (fun _ => rfl) (fun _ => rfl)
  intro n v ran i
  cases ran
  exact ⟨_, rfl⟩

theorem bare_hour_settle : Settles text total slot
    ⟨"datetime: bare hour", [Test.number (isIntBetween 0 23)], Datetimes.bareHour⟩ := by
  apply bare_settle .hour rfl rfl (fun _ => rfl) (fun _ => rfl)
  intro n v ran i
  obtain ⟨t, -, rfl⟩ := Option.map_eq_some_iff.mp (Except.ok.inj ran)
  exact ⟨t, rfl⟩

theorem holds_clock (text : Array Char) {test : DatetimeValue → ClockTime → Bool} {v : Value}
    (passed : Fits text (fun _ => True) (Datetimes.onClock test) (.value v)) :
    ∃ w t, v = .datetime w ∧ w.form = .timeOfDay t := by
  obtain ⟨w, same, holds, -⟩ := fits_of .datetime passed
  cases same
  split at holds
  · rename_i t form
    exact ⟨w, t, rfl, form⟩
  · cases holds

theorem grain_unit {g : Grain} {m : Match} (content : m.content = g.unit.toList) :
    Durations.grain [.text m] = .ok (some (.timeGrain { grain := g })) := by
  simp only [Durations.grain, content]
  cases g <;> rfl

namespace DurationText

variable (only : DurationText text total slot)

include only

theorem plain_at_place {start stop : Nat} (plain : PlainAt text start stop) :
    ∃ i < total, start = (slot i).start ∧ stop = (slot i).gap := by
  obtain ⟨i, known, rfl⟩ := only.clear_place
    (plain.digits start (Nat.le_refl _) plain.nonempty) plain.fresh.clear
  have lies := only.lies i known
  have digits := (slot i).start_lt_gap
  refine ⟨i, known, rfl, Nat.le_antisymm ?_ ?_⟩
  · by_contra beyond
    exact not_digit_of_space lies.space (plain.digits _ digits.le (by omega))
  · by_contra early
    exact plain.ends (lies.digit_at plain.nonempty.le (by omega)).1

theorem digits_settle :
    Settles text total slot ⟨"number: digits", [.text Numbers.plainDigits], Numbers.digits⟩ := by
  intro start stop findings children v spread ran known
  obtain ⟨m, found, rfl, rfl, rfl, rfl⟩ := spread_text_iff.mp spread
  have again := match_at_of_mem_find_all found (by decide)
  obtain ⟨i, inside, start, stop⟩ := only.plain_at_place (plain_at_of_match again)
  obtain ⟨-, -, -, content⟩ := match_at_range text _ _ m again
  obtain ⟨n, read, made⟩ := (Sequencing.bind_ok_iff _ _ _).mp ran
  have value : n = (slot i).count := by
    rw [content, start, stop, (only.lies i inside).digits, readInteger] at read
    split at read
    · cases read
    · rw [← Except.ok.inj read, Text.read_nat_to_digits]
  cases made
  rw [start, stop, value]
  exact ⟨.count, i, inside, rfl, rfl, rfl, Nat.le_refl _⟩

theorem unit_settle :
    Settles text total slot ⟨"duration: unit", [.text Durations.unitWord], Durations.grain⟩ := by
  intro start stop findings children v spread ran known
  obtain ⟨m, found, rfl, rfl, rfl, rfl⟩ := spread_text_iff.mp spread
  have again := match_at_of_mem_find_all found (by decide)
  obtain ⟨word, listed, stands, stop⟩ := Durations.unit_word_stands again
  obtain ⟨i, inside, start, rfl⟩ := only.stands_unit stands (Durations.unit_names_plain word listed)
  have last : m.stop = (slot i).stop := by rw [stop, start, Slot.stop]
  obtain ⟨-, -, -, content⟩ := match_at_range text _ _ m again
  rw [start, last, (only.lies i inside).name] at content
  cases (grain_unit content).symm.trans ran
  rw [start, last]
  exact ⟨.unit, i, inside, rfl, rfl, rfl, Nat.le_refl _⟩

theorem counted_settle : Settles text total slot
    ⟨"duration: count unit", [Test.number Durations.isCount, Test.timeGrain],
      Durations.counted⟩ := by
  intro start stop findings children v spread ran known
  obtain ⟨left, right, begins, passed, place, passedToo, ends, rfl, rfl⟩ :=
    spread_value_value_iff.mp spread
  obtain ⟨n, value, -⟩ := holds_of .number (Except.ok.inj passed)
  obtain ⟨g, valueToo, -⟩ := holds_of .timeGrain (Except.ok.inj passedToo)
  obtain ⟨i, rfl, first⟩ := (known left List.mem_cons_self).count value
  obtain ⟨j, rfl, second⟩ := (known right (.tail _ (.head _))).unit valueToo
  have inside : i + 1 ≤ total := first.inside
  have insideToo : j + 1 ≤ total := second.inside
  have chars : left.chars = ⟨(slot i).start, (slot i).gap⟩ := first.chars
  have charsToo : right.chars = ⟨(slot j).gap + 1, (slot j).stop⟩ := second.chars
  rw [chars] at begins place
  rw [charsToo] at place ends
  obtain rfl : (slot i).start = start := Int.ofNat.inj begins
  obtain rfl : (slot j).stop = stop := by simpa using ends
  simp only [Int.toNat_natCast, only.gap_end_gap (show i < total by omega)] at place
  have digits := (slot i).start_lt_gap
  have unit := (slot j).gap_lt_stop
  have digitsToo := (slot j).start_lt_gap
  have unitToo := (slot i).gap_lt_stop
  obtain rfl : i = j := only.eq_of_overlap inside insideToo (by omega) (by omega)
  have low : left.height ≤ 1 := first.low
  have lowToo : right.height ≤ 1 := second.low
  rw [value, valueToo] at ran
  cases ran
  refine ⟨.length .nil, i, inside, rfl, rfl, ?_, ?_⟩
  · rw [Node.keys, Node.keys, Node.keys, first.key, second.key]
    rfl
  · simp only [Node.tallest, Role.height, BinaryTree.numNodes]
    omega

theorem joint_between {pos : Nat} (inside : pos ≤ text.size) :
    Durations.joint.matchAt text pos = some ⟨pos, pos, [], []⟩ := by
  rw [Durations.joint, match_at_optional _ _ _ inside, only.match_at_whole_word (by decide)]
  rfl

theorem next_of_gap_end {i j : Nat} (inside : i < total) (insideToo : j < total)
    (place : (slot j).start = Text.gapEnd text (slot i).stop) : j = i + 1 := by
  have forward := (slot j).start_lt_stop
  rcases Nat.lt_or_ge (i + 1) total with more | none
  · rw [only.gap_end_stop more] at place
    have next := (slot (i + 1)).start_lt_stop
    exact only.eq_of_overlap insideToo more (by omega) (by omega)
  · rw [only.gap_end_last (by omega)] at place
    have within := only.stop_le insideToo
    omega

theorem composite_settle : Settles text total slot
    ⟨"duration: composite",
      [Test.duration Test.any, .text (.optional (.wholeWord ["and"])), Test.duration Test.any],
      Durations.composite⟩ := by
  intro start stop findings children v spread ran known
  obtain ⟨left, right, m, begins, passed, between, place, passedToo, ends, rfl, rfl⟩ :=
    spread_value_text_value_iff.mp spread
  obtain ⟨a, value, -⟩ := holds_of .duration (Except.ok.inj passed)
  obtain ⟨b, valueToo, -⟩ := holds_of .duration (Except.ok.inj passedToo)
  obtain ⟨i, shape, rfl, first⟩ := (known left List.mem_cons_self).length value
  obtain ⟨j, other, rfl, second⟩ := (known right (.tail _ (.head _))).length valueToo
  have inside : i + (shape.numNodes + 1) ≤ total := first.inside
  have insideToo : j + (other.numNodes + 1) ≤ total := second.inside
  have chars : left.chars = ⟨(slot i).start, (slot (i + shape.numNodes)).stop⟩ := first.chars
  have charsToo : right.chars = ⟨(slot j).start, (slot (j + other.numNodes)).stop⟩ := second.chars
  rw [chars] at begins between place
  rw [charsToo] at place ends
  obtain rfl : (slot i).start = start := Int.ofNat.inj begins
  obtain rfl : (slot (j + other.numNodes)).stop = stop := by simpa using ends
  simp only [Int.toNat_natCast] at between place
  have within := only.stop_le (show i + shape.numNodes < total by omega)
  have range := gap_end_range text (slot (i + shape.numNodes)).stop
  have empty := Option.some.inj (between.symm.trans (only.joint_between (by omega)))
  rw [empty, if_neg (Nat.lt_irrefl _)] at place
  obtain rfl : j = i + shape.numNodes + 1 :=
    only.next_of_gap_end (by omega) (by omega) (Int.ofNat.inj place)
  have low : left.height ≤ shape.numNodes + 2 := first.low
  have lowToo : right.height ≤ other.numNodes + 2 := second.low
  rw [value, valueToo] at ran
  obtain ⟨d, rfl, merged⟩ := Durations.composite_eq_some (m := m) ran
  obtain ⟨rfl, -⟩ := Durations.merge_eq_some merged
  have width : (BinaryTree.node () shape other).numNodes = shape.numNodes + 1 + other.numNodes := by
    simp only [BinaryTree.numNodes]
    omega
  refine ⟨.length (.node () shape other), i, ?_, ?_, ?_, ?_, ?_⟩
  · rw [Role.width, width]
    omega
  · rw [Role.span, width, ← Nat.add_assoc, ← Nat.add_assoc]
  · have period := period_from_append slot i (shape.numNodes + 1) (other.numNodes + 1)
    rw [← Nat.add_assoc, ← Nat.add_assoc] at period
    rw [Role.Holds, width, ← period]
  · rw [Node.keys, Node.keys, Node.keys, first.key, second.key]
    rfl
  · simp only [Node.tallest, Role.height, width]
    omega

theorem half_day_settle : Settles text total slot
    ⟨"datetime: am pm", [Datetimes.onClock fun _ t => t.ambiguous, .text Datetimes.halfDayMark],
      Datetimes.halfDay⟩ := by
  intro start stop findings children v spread ran known
  obtain ⟨child, m, begins, passed, found, ends, rfl, rfl⟩ := spread_value_text_iff.mp spread
  obtain ⟨next, reached, -⟩ := reached_of_match_at found
  have leads : Leads ["a", "p"] Datetimes.halfDayMark :=
    leads_sequence (leads_group (leads_words _))
  obtain ⟨head, listed, reads⟩ := leads text _ next reached
  have marks : ∀ head ∈ ["a", "p"], IsPlain head ∧
      ∀ unit ∈ Grain.all.map Grain.unit, Differ head unit := by
    decide
  obtain ⟨plain, differ⟩ := marks head listed
  obtain ⟨v, t, value, form⟩ := holds_clock text ⟨passed, trivial⟩
  obtain ⟨i, plays⟩ := (known child List.mem_cons_self).hour value form
  have inside : i + 1 ≤ total := plays.inside
  have chars : child.chars = ⟨(slot i).start, (slot i).gap⟩ := plays.chars
  simp only [chars, Int.toNat_natCast, only.gap_end_gap (show i < total by omega)] at reads
  exact absurd reads ((only.lies i inside).unit.not_reads (unit_plain _) plain
    (differ _ (List.mem_map_of_mem (mem_all_grains _))))

/-! The rules of the grammar. -/

theorem word_settles {name : String} {options : List String} {rest : List (Item Value)}
    {produce : List (Finding Value) → Produced} (barred : ∀ word ∈ options, Barred word) :
    Settles text total slot ⟨name, .text (wholeWord options) :: rest, produce⟩ :=
  settles_first (only.match_at_whole_word barred)

theorem foreign_settles {name : String} {p : Pattern} {rest : List (Item Value)}
    {produce : List (Finding Value) → Produced} (unable : p.spellable durationChars = false) :
    Settles text total slot ⟨name, .text p :: rest, produce⟩ :=
  settles_first (only.foreign unable)

theorem foreign_settles_second {name : String} {item : Item Value} {p : Pattern}
    {rest : List (Item Value)} {produce : List (Finding Value) → Produced}
    (unable : p.spellable durationChars = false) :
    Settles text total slot ⟨name, item :: .text p :: rest, produce⟩ :=
  settles_second (only.foreign unable)

theorem numbers_settle (readings : Readings) :
    ∀ r ∈ Numbers.rules readings, Settles text total slot r := by
  have spoken : Idle text (Test.number Numbers.isWordNumber) :=
    idle_of fun _ bare => by cases bare; rfl
  simp only [Numbers.rules, List.forall_mem_cons]
  exact ⟨only.word_settles (by decide), only.word_settles (by decide),
    only.word_settles (by decide), only.foreign_settles (by decide), only.digits_settle,
    only.foreign_settles (by decide), settles_first only.minus_absent,
    settles_first spoken, settles_first spoken, by simp⟩

theorem ordinals_settle (readings : Readings) :
    ∀ r ∈ Ordinals.rules readings, Settles text total slot r := by
  simp only [Ordinals.rules, List.forall_mem_cons]
  exact ⟨only.word_settles (by decide), settles_first only.ordinal_digits_absent,
    settles_third (idle_of fun _ bare => by cases bare), by simp⟩

theorem measures_settle :
    ∀ r ∈ Measures.temperatureRules ++ Measures.percentageRules, Settles text total slot r := by
  simp only [Measures.temperatureRules, Measures.percentageRules, List.cons_append,
    List.nil_append, List.forall_mem_cons]
  exact ⟨bare_temperature_settle, only.foreign_settles_second (by decide),
    only.foreign_settles_second (by decide),
    settles_first (idle_of fun _ bare => by cases bare; rfl),
    only.foreign_settles_second (by decide), by simp⟩

theorem money_settles (readings : Readings) :
    ∀ r ∈ Money.rules readings, Settles text total slot r := by
  simp only [Money.rules, List.forall_mem_cons]
  exact ⟨settles_first only.currency_word_absent, only.foreign_settles (by decide),
    settles_second (idle_of fun _ bare => by cases bare), only.word_settles (by decide),
    settles_second (idle_of fun _ bare => by cases bare), by simp⟩

theorem durations_settle : ∀ r ∈ Durations.rules, Settles text total slot r := by
  simp only [Durations.rules, List.forall_mem_cons]
  exact ⟨only.unit_settle, only.counted_settle, settles_first only.article_absent,
    only.foreign_settles (by decide), only.composite_settle,
    settles_first only.approximation_absent, by simp⟩

theorem day_rules_settle (readings : Readings) :
    ∀ r ∈ Datetimes.dayRules readings, Settles text total slot r := by
  simp only [Datetimes.dayRules, List.forall_mem_cons]
  exact ⟨settles_first only.now_words_absent,
    settles_first only.relative_day_words_absent,
    settles_first (only.match_at_starts relative_grain_words_start (by decide) (by decide)),
    settles_first (only.match_at_starts weekday_word_starts (by decide) (by decide)),
    only.word_settles (by decide),
    settles_first (only.match_at_starts month_word_starts (by decide) (by decide)),
    only.word_settles (by decide),
    settles_first (idle_on_calendar fun _ => rfl),
    settles_third (idle_on_calendar fun _ => rfl),
    settles_first (idle_on_calendar fun _ => rfl),
    settles_first (idle_on_calendar fun _ => rfl),
    only.word_settles (by decide), bare_year_settle, only.foreign_settles (by decide),
    only.foreign_settles (by decide),
    settles_first (idle_datetime (fun _ => rfl) fun _ => rfl), by simp⟩

theorem time_rules_settle : ∀ r ∈ Datetimes.timeRules, Settles text total slot r := by
  simp only [Datetimes.timeRules, List.forall_mem_cons]
  exact ⟨only.foreign_settles (by decide), only.half_day_settle, only.word_settles (by decide),
    only.word_settles (by decide), settles_first only.at_word_absent,
    only.foreign_settles_second (by decide), bare_hour_settle, by simp⟩

theorem combined_rules_settle : ∀ r ∈ Datetimes.combinedRules, Settles text total slot r := by
  have day : Idle text Datetimes.dayForm := idle_datetime (fun _ => rfl) fun _ => rfl
  have time : Idle text Datetimes.timeForm := idle_datetime (fun _ => rfl) fun _ => rfl
  simp only [Datetimes.combinedRules, List.forall_mem_cons]
  exact ⟨settles_first day, settles_first time, only.word_settles (by decide),
    settles_second (only.match_at_whole_word (by decide)),
    settles_second (only.match_at_whole_word (by decide)), only.word_settles (by decide),
    only.word_settles (by decide), by simp⟩

theorem rules_settle (readings : Readings) :
    ∀ r ∈ rulesWith readings, Settles text total slot r := by
  have measures := only.measures_settle
  rw [List.forall_mem_append] at measures
  simp only [rulesWith, Datetimes.rules, List.forall_mem_append]
  exact ⟨⟨⟨⟨⟨⟨only.numbers_settle readings, only.ordinals_settle readings⟩, measures.1⟩,
    measures.2⟩, only.money_settles readings⟩, only.durations_settle⟩,
    ⟨only.day_rules_settle readings, only.time_rules_settle⟩, only.combined_rules_settle⟩

/-- Every tree of the text goes over successive parts, in one of the roles. -/
theorem derives_known {rs : RuleSet Value} {readings : Readings}
    (english : rs.rules = rulesWith readings) (derives : Derives rs text node) :
    HasRole total slot node := by
  induction derives with
  | intro node r member built parts ih =>
      rw [english] at member
      exact (only.rules_settle readings r member).known built ih

end DurationText

end Rules

end Reckon.English

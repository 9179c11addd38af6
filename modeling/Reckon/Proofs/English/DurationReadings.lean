import Reckon.Proofs.English.DurationParts
import Reckon.Proofs.English.Periods
import Reckon.Proofs.Forest.Listed

/-!
# One range, one period

A duration in a forest is told by the range it covers: its period lists the parts that the text
writes there. So parses of one range agree in the period, however they are bracketed and wherever an
approximation was read.
-/

set_option autoImplicit false

namespace Reckon.English

open Forest Sequencing
open Pattern hiding some

section Productions

variable {readings : Readings} {text : Array Char} {start stop : Nat} {n : NumberValue}

theorem not_is_count_neg {a : Numeral} (positive : a.le (.int 0) = false)
    (counts : Durations.isCount { value := a.neg } = true) : False := by
  simp only [Durations.isCount, Numbers.isNonNegative, Bool.and_eq_true] at counts
  cases a with
  | int k =>
      simp only [Numeral.le, Numeral.int?, Numeral.neg, decide_eq_false_iff_not,
        decide_eq_true_eq] at positive counts
      omega
  | truth b => cases b <;> simp [Numeral.le, Numeral.int?, Numeral.neg] at positive counts
  | float x => simp [Numeral.isInt, Numeral.int?, Numeral.neg] at counts

theorem extent_of_spread {r : Rule Value} (member : r ∈ Numbers.rules readings)
    {findings : List (Finding Value)} {children : List (Node Value)}
    (spread : Spread text r.items start findings children stop)
    (ran : r.produce findings = .ok (some (.number n))) (counts : Durations.isCount n = true) :
    n.fromWords = true ∨ GroupedAt text start stop ∨ PlainAt text start stop := by
  have spoken {entry : List String × (List (Finding Value) → Produced)}
      (belongs : entry ∈ Numbers.lexicon readings) {m : Match}
      (made : entry.2 [.text m] = .ok (some (.number n))) : n.fromWords = true := by
    obtain ⟨w, rfl⟩ := Numbers.lexicon_number belongs made
    cases w <;> rfl
  simp only [Numbers.rules, List.mem_cons, List.not_mem_nil, or_false] at member
  rcases member with rfl | rfl | rfl | rfl | rfl | rfl | rfl | rfl | rfl
  · obtain ⟨m, -, -, -, rfl, -⟩ := spread_text_iff.mp spread
    exact .inl (spoken (.head _) ran)
  · obtain ⟨m, -, -, -, rfl, -⟩ := spread_text_iff.mp spread
    exact .inl (spoken (.tail _ (.head _)) ran)
  · obtain ⟨m, -, -, -, rfl, -⟩ := spread_text_iff.mp spread
    exact .inl (spoken (.tail _ (.tail _ (.head _))) ran)
  · obtain ⟨m, found, rfl, rfl, -⟩ := spread_text_iff.mp spread
    exact .inr (.inl (grouped_at_of_match (match_at_of_mem_find_all found (by decide))))
  · obtain ⟨m, found, rfl, rfl, -⟩ := spread_text_iff.mp spread
    exact .inr (.inr (plain_at_of_match (match_at_of_mem_find_all found (by decide))))
  · obtain ⟨m, -, -, -, rfl, -⟩ := spread_text_iff.mp spread
    cases ran
    cases counts
  · simp only [Numbers.negate] at ran
    split at ran
    · split at ran
      · cases ran
      · rename_i positive
        cases ran
        exact (not_is_count_neg (Bool.eq_false_of_not_eq_true positive) counts).elim
    · cases ran
  · simp only [Numbers.multiply] at ran
    split at ran
    · obtain ⟨product, scaled, same⟩ := Option.map_eq_some_iff.mp (Except.ok.inj ran)
      cases same
      obtain ⟨_, _, _, _, -, -, -, -, -, -, -, rfl⟩ := (Numbers.scale_eq_some_iff _ _ _).mp scaled
      exact .inl rfl
    · cases ran
  · simp only [Numbers.sum] at ran
    split at ran
    · obtain ⟨total, joined, same⟩ := Option.map_eq_some_iff.mp (Except.ok.inj ran)
      cases same
      obtain ⟨_, _, _, -, -, -, -, -, -, -, rfl⟩ := (Numbers.join_eq_some_iff _ _ _).mp joined
      exact .inl rfl
    · cases ran

theorem course_composite {a b d : DurationValue} {middle : Nat} {m : Match}
    (first : Course readings text start middle a.period)
    (between : Durations.joint.matchAt text (Text.gapEnd text middle) = some m)
    (second : Course readings text
      (Text.gapEnd text (if m.start < m.stop then m.stop else middle)) stop b.period)
    (ran : Durations.composite [.value (.duration a), .text m, .value (.duration b)] =
      .ok (some (.duration d))) :
    Course readings text start stop d.period := by
  obtain ⟨_, same, merged⟩ := Durations.composite_eq_some ran
  cases same
  obtain ⟨rfl, -⟩ := Durations.merge_eq_some merged
  have place : Durations.onward text middle =
      Text.gapEnd text (if m.start < m.stop then m.stop else middle) := by
    rw [Durations.onward, between]
  rw [← place] at second
  exact first.append second

end Productions

section Forests

variable {rs : RuleSet Value} {readings : Readings} {text : Array Char} {node : Node Value}

theorem rules_with_lengths (readings : Readings) : ∀ r ∈ rulesWith readings,
    r ∈ Durations.rules ∨ ∃ d, (d ≠ .duration ∧ d ≠ .timeGrain) ∧ Yields d r.produce := by
  intro r member
  simp only [rulesWith, List.mem_append] at member
  rcases member with (((((number | ordinal) | temperature) | percentage) | money) | duration) | time
  · exact .inr ⟨_, by decide, Numbers.rules_yield readings r number⟩
  · exact .inr ⟨_, by decide, Ordinals.rules_yield readings r ordinal⟩
  · exact .inr ⟨_, by decide, Measures.temperature_rules_yield r temperature⟩
  · exact .inr ⟨_, by decide, Measures.percentage_rules_yield r percentage⟩
  · rcases Money.rules_yield readings r money with unit | amount
    · exact .inr ⟨_, by decide, unit⟩
    · exact .inr ⟨_, by decide, amount⟩
  · exact .inl duration
  · exact .inr ⟨_, by decide, Datetimes.rules_yield readings r time⟩

theorem builds_length {r : Rule Value} (member : r ∈ rulesWith readings)
    (built : Builds text r node)
    (known : node.value.dimension? = some .duration ∨ node.value.dimension? = some .timeGrain) :
    r ∈ Durations.rules := by
  rcases rules_with_lengths readings r member with duration | ⟨d, other, yields⟩
  · exact duration
  · obtain ⟨findings, ⟨start, stop, v, -, made, -, shape⟩, -⟩ := built
    have dimension := yields findings v made
    rw [show node.value = v by rw [shape]; rfl, dimension] at known
    rcases known with length | unit
    · exact absurd (Option.some.inj length) other.1
    · exact absurd (Option.some.inj unit) other.2

theorem derives_count (english : rs.rules = rulesWith readings) (derives : Derives rs text node)
    {n : NumberValue} (value : node.value = .number n) (counts : Durations.isCount n = true) :
    ∃ start stop : Nat, node.chars = ⟨start, stop⟩ ∧ CountAt readings text start stop n := by
  obtain ⟨start, stop, chars, number⟩ := derives_tells english derives n value
  refine ⟨start, stop, chars, number, ?_⟩
  cases derives with
  | intro _ r member built parts =>
      rw [english] at member
      have rule := builds_number member built (by rw [value]; rfl)
      obtain ⟨findings, ⟨first, last, v, spread, ran, -, shape⟩, -⟩ := built
      rw [shape] at value chars
      injection chars with starts stops
      obtain rfl : first = start := by omega
      obtain rfl : last = stop := by omega
      rcases extent_of_spread rule spread (value ▸ ran) counts with spoken | digits
      · obtain ⟨ws, chain, -⟩ := number.spoken (.inl spoken)
        exact .inl ⟨ws, chain⟩
      · exact .inr digits

theorem derives_unit (english : rs.rules = rulesWith readings) (derives : Derives rs text node)
    {g : TimeGrainValue} (value : node.value = .timeGrain g) :
    ∃ start stop : Nat, node.chars = ⟨start, stop⟩ ∧ UnitAt text start stop g := by
  cases derives with
  | intro _ r member built parts =>
      rw [english] at member
      have rule := builds_length member built (.inr (by rw [value]; rfl))
      obtain ⟨findings, ⟨start, stop, v, spread, ran, -, shape⟩, -⟩ := built
      have same : v = .timeGrain g := by
        rw [shape] at value
        exact value
      have chars : node.chars = ⟨start, stop⟩ := by rw [shape]; rfl
      subst same
      have other {produce : List (Finding Value) → Produced} (yields : Yields .duration produce)
          (made : produce findings = .ok (some (.timeGrain g))) : False := by
        cases yields findings _ made
      simp only [Durations.rules, List.mem_cons, List.not_mem_nil, or_false] at rule
      rcases rule with rfl | rfl | rfl | rfl | rfl | rfl
      · obtain ⟨m, found, rfl, rfl, rfl, -⟩ := spread_text_iff.mp spread
        exact ⟨m.start, m.stop, chars, m, (match_at_of_mem_find_all found (by decide)), rfl, ran⟩
      · exact (other Durations.counted_yields ran).elim
      · exact (other Durations.single_yields ran).elim
      · exact (other Durations.half_hour_yields ran).elim
      · exact (other Durations.composite_yields ran).elim
      · exact (other Durations.approximately_yields ran).elim

/-- A node that holds a duration stands for parts that the text writes over its range. -/
def TellsPeriod (readings : Readings) (text : Array Char) (node : Node Value) : Prop :=
  ∀ d, node.value = .duration d → ∃ start stop : Nat, node.chars = ⟨start, stop⟩ ∧
    Course readings text start stop d.period

theorem course_of_spread (english : rs.rules = rulesWith readings) {r : Rule Value}
    (member : r ∈ Durations.rules) {start stop : Nat} {findings : List (Finding Value)}
    {children : List (Node Value)} (spread : Spread text r.items start findings children stop)
    (derive : ∀ child ∈ children, Derives rs text child)
    (tell : ∀ child ∈ children, TellsPeriod readings text child) {d : DurationValue}
    (ran : r.produce findings = .ok (some (.duration d))) :
    Course readings text start stop d.period := by
  simp only [Durations.rules, List.mem_cons, List.not_mem_nil, or_false] at member
  rcases member with rfl | rfl | rfl | rfl | rfl | rfl
  · cases Durations.grain_yields findings _ ran
  · obtain ⟨left, right, begins, passed, place, passedToo, rfl, rfl, rfl⟩ :=
      spread_value_value_iff.mp spread
    obtain ⟨n, valueN, counts⟩ := holds_of .number (Except.ok.inj passed)
    obtain ⟨g, valueG, -⟩ := holds_of .timeGrain (Except.ok.inj passedToo)
    obtain ⟨_, middle, charsN, number⟩ :=
      derives_count english (derive left List.mem_cons_self) valueN counts
    obtain ⟨_, last, charsG, unit⟩ := derives_unit english (derive right (.tail _ (.head _))) valueG
    rw [charsN] at begins place
    rw [charsG] at place ⊢
    rw [valueN, valueG] at ran
    cases Int.ofNat.inj begins
    cases Int.ofNat.inj place
    simp only [Durations.counted] at ran
    split at ran
    · rename_i count whole
      cases ran
      exact .last (.counted number whole unit)
    · cases ran
  · obtain ⟨m, found, right, rfl, place, passed, rfl, rfl, rfl⟩ := spread_text_value_iff.mp spread
    obtain ⟨g, value, -⟩ := holds_of .timeGrain (Except.ok.inj passed)
    obtain ⟨_, last, chars, unit⟩ := derives_unit english (derive right List.mem_cons_self) value
    rw [chars] at place ⊢
    rw [value] at ran
    cases Int.ofNat.inj place
    cases ran
    exact .last (.single (match_at_of_mem_find_all found (by decide)) unit)
  · obtain ⟨m, found, rfl, rfl, rfl, -⟩ := spread_text_iff.mp spread
    cases ran
    exact .last (.half (match_at_of_mem_find_all found (by decide)))
  · obtain ⟨left, right, m, begins, passed, between, place, passedToo, rfl, rfl, rfl⟩ :=
      spread_value_text_value_iff.mp spread
    obtain ⟨a, valueA, -⟩ := holds_of .duration (Except.ok.inj passed)
    obtain ⟨b, valueB, -⟩ := holds_of .duration (Except.ok.inj passedToo)
    obtain ⟨_, middle, charsA, first⟩ := tell left List.mem_cons_self a valueA
    obtain ⟨_, last, charsB, second⟩ := tell right (.tail _ (.head _)) b valueB
    rw [charsA] at begins between place
    rw [charsB] at place ⊢
    rw [valueA, valueB] at ran
    cases Int.ofNat.inj begins
    cases Int.ofNat.inj place
    exact course_composite first between second ran
  · obtain ⟨m, found, right, rfl, place, passed, rfl, rfl, rfl⟩ := spread_text_value_iff.mp spread
    obtain ⟨a, value, -⟩ := holds_of .duration (Except.ok.inj passed)
    obtain ⟨_, last, chars, course⟩ := tell right List.mem_cons_self a value
    rw [chars] at place ⊢
    rw [value] at ran
    cases Int.ofNat.inj place
    cases ran
    exact .about (match_at_of_mem_find_all found (by decide)) course

theorem derives_tells_period (english : rs.rules = rulesWith readings)
    (derives : Derives rs text node) : TellsPeriod readings text node := by
  induction derives with
  | intro node r member built parts ih =>
      intro d value
      rw [english] at member
      have rule := builds_length member built (.inl (by rw [value]; rfl))
      obtain ⟨findings, ⟨start, stop, v, spread, ran, -, shape⟩, -⟩ := built
      have chars : node.chars = ⟨start, stop⟩ := by rw [shape]; rfl
      have same : v = .duration d := by
        rw [shape] at value
        exact value
      subst same
      exact ⟨start, stop, chars, course_of_spread english rule spread parts ih ran⟩

/-- Durations over one range have one period. -/
theorem derives_period_unique (english : rs.rules = rulesWith readings) {other : Node Value}
    (left : Derives rs text node) (right : Derives rs text other) {a b : DurationValue}
    (first : node.value = .duration a) (second : other.value = .duration b)
    (same : node.chars = other.chars) : a.period = b.period := by
  obtain ⟨start, stop, chars, course⟩ := derives_tells_period english left a first
  obtain ⟨_, _, charsToo, courseToo⟩ := derives_tells_period english right b second
  rw [chars, charsToo] at same
  injection same with starts stops
  cases Int.ofNat.inj starts
  cases Int.ofNat.inj stops
  exact course.unique courseToo

end Forests

/-- Durations in a forest are canonical. Their periods, and those that dates and times are shifted
by, go from coarse grains to fine ones, none twice, so listing them by unit loses nothing; and
durations that cover the same characters have the same period, whatever rules and trees built
them. -/
theorem forest_durations_agree (readings : Readings) (maxRounds maxNodes : Int)
    (text : Array Char) (entries : List (Entry Value)) (notices : List Notice)
    (ran : RuleSet.apply { rules := rulesWith readings, maxRounds, maxNodes } text =
      .ok (entries, notices)) :
    (∀ e ∈ entries, ∀ period ∈ e.node.value.periods,
      period.Descends ∧ (period.map (·.1)).Nodup ∧ period.byUnit = period) ∧
      ∀ d ∈ entries, ∀ e ∈ entries, ∀ a b, d.node.value = .duration a →
        e.node.value = .duration b → d.node.chars = e.node.chars → a.period = b.period := by
  have derived := RuleSet.apply_sound ran
  constructor
  · intro e member period listed
    have descends := derives_descends rfl (derived e member) period listed
    exact ⟨descends, descends.nodup, Period.by_unit_eq descends.nodup⟩
  · intro d left e right a b first second same
    exact derives_period_unique rfl (derived d left) (derived e right) first second same

/-- The approximation may be read before the first part or before both. -/
theorem about_two_days_agree : ∃ entries notices,
    (ruleSetWith usualReadings).apply "about 2 days 3 hours".toList.toArray =
      .ok (entries, notices) ∧
      (entries.filter fun e => e.node.chars = ⟨0, 20⟩ ∧
        e.node.value.dimension? = some .duration).length = 2 ∧
      (∀ e ∈ entries, ∀ period ∈ e.node.value.periods,
        period.Descends ∧ (period.map (·.1)).Nodup ∧ period.byUnit = period) ∧
      ∀ d ∈ entries, ∀ e ∈ entries, ∀ a b, d.node.value = .duration a →
        e.node.value = .duration b → d.node.chars = e.node.chars → a.period = b.period := by
  have counted : ((ruleSetWith usualReadings).apply
      "about 2 days 3 hours".toList.toArray).toOption.map (fun found => (found.1.filter fun e =>
        e.node.chars = ⟨0, 20⟩ ∧ e.node.value.dimension? = some .duration).length) = some 2 := by
    rw [RuleSet.apply_eq_listed]
    decide +kernel
  obtain ⟨⟨entries, notices⟩, ran, two⟩ := exists_ok_of_map counted
  exact ⟨entries, notices, ran, two, forest_durations_agree usualReadings 16 4000 _ _ _ ran⟩

end Reckon.English

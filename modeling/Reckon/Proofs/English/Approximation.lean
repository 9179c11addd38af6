import Reckon.Proofs.English.Dimensions
import Reckon.Proofs.English.Findings
import Reckon.Proofs.English.Periods
import Reckon.Proofs.Forest.Heights
import Reckon.Proofs.Forest.Layouts
import Reckon.Proofs.Forest.Listed
import Reckon.Proofs.Scoring.TreeScore
import Reckon.Resolution

/-!
# Where approximations go

A word such as "about" marks an amount or a duration as approximate, and most rules hand the mark on
to what they make of it. Two do not: a composite duration has the precision of its first part alone,
and an interval is exact whatever its ends are. So an approximation anywhere in a tree reaches the
root unless such a node stands between them.
-/

set_option autoImplicit false

namespace Reckon

open Sequencing

/-! Precision through resolution. -/

def Output.precision? : Output → Option Precision
  | money _ precision _ | duration _ precision | datetime _ _ precision _
  | interval _ _ _ precision _ => some precision
  | integer _ | float _ | ordinal _ | percentage _ | temperature _ _ => none

namespace Value

def IsApproximate (v : Value) : Prop := v.precision? = some .approximate

theorem resolve_datetime_precision (c : Context) (v : DatetimeValue) :
    Yields (fun output => output.precision? = some v.precision) (resolveDatetime c v) := by
  unfold resolveDatetime
  split
  · unfold resolveInterval
    refine yields_bind (Q := fun _ => True) (fun _ _ => trivial) fun first _ => ?_
    refine yields_bind (Q := fun _ => True) (fun _ _ => trivial) fun last _ => ?_
    simp only
    split
    · exact yields_error _ _
    · exact yields_ok rfl
  · exact yields_bind (Q := fun _ => True) (fun _ _ => trivial) fun grounded _ => yields_ok rfl

theorem resolve_precision (kind : Kind) (v : Value) (c : Context) :
    Yields (fun output => output.precision? = v.precision?) (v.resolve kind c) := by
  unfold resolve
  split
  · cases v with
    | number v =>
        simp only [read, resolveNumber]
        split
        · exact yields_error _ _
        · exact yields_ok rfl
        · exact yields_ok rfl
    | ordinal v | percentage v | temperature v | money v =>
        exact yields_bind (Q := fun _ => True) (fun _ _ => trivial) fun x _ => yields_ok rfl
    | duration v =>
        simp only [read]
        split
        · exact yields_error _ _
        · exact yields_ok rfl
    | datetime v => exact resolve_datetime_precision c v
    | timeGrain v | moneyUnit v | unknown typeName dimension => exact yields_error _ _
  · exact yields_error _ _

end Value

namespace English

open Forest

/-! Which times can be approximate. -/

/-- A time is exact unless it is a period ahead or back. -/
def ExactUnlessShift (v : Value) : Prop :=
  ∀ d, v = .datetime d → d.precision = .approximate → ∃ period sign, d.form = .shift period sign

theorem keeps_of_yields {d : Dimension} {r : Rule Value} (yields : Yields d r.produce)
    (other : d ≠ .datetime) : Keeps ExactUnlessShift r := by
  rintro text findings v - ran time rfl
  exact absurd (Option.some.inj (yields findings _ ran)).symm other

theorem keeps_of_tells {r : Rule Value} (tells : Datetimes.TellsExactly r.produce) :
    Keeps ExactUnlessShift r := by
  rintro text findings v - ran time rfl approximate
  obtain ⟨form, latent, same⟩ := tells findings _ ran
  cases same
  cases approximate

namespace Datetimes

theorem Shifts.ok {produce : List (Finding Value) → Produced} (shifts : Shifts produce)
    {findings : List (Finding Value)} {v : Value} (ran : produce findings = .ok (some v)) :
    ∃ d : DurationValue, ∃ sign, (∀ w, .value w ∈ findings ↔ w = .duration d) ∧
      v = .datetime { form := .shift d.period sign, precision := d.precision } := by
  rcases shifts findings with same | ⟨d, sign, found, same⟩
  · rw [same] at ran
    cases ran
  · rw [same] at ran
    cases ran
    exact ⟨d, sign, found, rfl⟩

theorem keeps_of_shifts {r : Rule Value} (shifts : Shifts r.produce) :
    Keeps ExactUnlessShift r := by
  rintro text findings v - ran time rfl -
  obtain ⟨d, sign, -, same⟩ := shifts.ok ran
  cases same
  exact ⟨_, _, rfl⟩

theorem combined_rules_exact_unless_shift : ∀ r ∈ combinedRules, Keeps ExactUnlessShift r := by
  simp only [combinedRules, List.forall_mem_cons]
  exact ⟨keeps_of_tells date_at_time_exact, keeps_of_tells time_on_date_exact,
    keeps_of_shifts in_duration_shifts, keeps_of_shifts (duration_then_shifts _),
    keeps_of_shifts (duration_then_shifts _),
    keeps_of_tells range_exact, keeps_of_tells range_exact, by simp⟩

end Datetimes

theorem rules_with_exact_unless_shift (readings : Readings) :
    ∀ r ∈ rulesWith readings, Keeps ExactUnlessShift r := by
  intro r member
  simp only [rulesWith, Datetimes.rules, List.mem_append] at member
  rcases member with
    (((((number | ordinal) | temperature) | percentage) | money) | duration) | (day | time) | pair
  · exact keeps_of_yields (Numbers.rules_yield readings r number) (by decide)
  · exact keeps_of_yields (Ordinals.rules_yield readings r ordinal) (by decide)
  · exact keeps_of_yields (Measures.temperature_rules_yield r temperature) (by decide)
  · exact keeps_of_yields (Measures.percentage_rules_yield r percentage) (by decide)
  · rcases Money.rules_yield readings r money with unit | amount
    · exact keeps_of_yields unit (by decide)
    · exact keeps_of_yields amount (by decide)
  · rcases Durations.rules_yield r duration with grain | period
    · exact keeps_of_yields grain (by decide)
    · exact keeps_of_yields period (by decide)
  · exact keeps_of_tells (Datetimes.day_rules_exact readings r day)
  · exact keeps_of_tells (Datetimes.time_rules_exact r time)
  · exact Datetimes.combined_rules_exact_unless_shift r pair

/-! Items that take nothing approximate. -/

/-- An item that no approximate value passes. -/
def TakesExact : Item Value → Prop
  | .text _ => True
  | .value test => ∀ w, test w = .ok true → ExactUnlessShift w → ¬w.IsApproximate

@[simp]
theorem takes_exact_text (p : Pattern) : TakesExact (.text p) := trivial

attribute [local simp] Value.precision?

@[simp]
theorem takes_exact_of {d : Dimension} {test : d.Holds → Bool}
    (exact : ∀ held, test held = true → ¬(Value.of d held).precision? = some .approximate) :
    TakesExact (Test.of d test) := by
  intro w passed _
  obtain ⟨held, rfl, passes⟩ := holds_of d (Except.ok.inj passed)
  exact exact held passes

@[simp]
theorem takes_exact_exact (d : Dimension) : TakesExact (Test.exact d) :=
  takes_exact_of fun _ passes => bne_iff_ne.mp passes

theorem takes_exact_datetime {test : DatetimeValue → Bool}
    (other : ∀ d period sign, d.form = .shift period sign → test d = false) :
    TakesExact (Test.datetime test) := by
  intro w passed known approximate
  cases w with
  | datetime d =>
      obtain ⟨period, sign, form⟩ := known d rfl (Option.some.inj approximate)
      have passes : test d = true := Except.ok.inj passed
      rw [other d period sign form] at passes
      cases passes
  | _ => cases Except.ok.inj passed

namespace Datetimes

@[simp]
theorem takes_exact_on_calendar (test : PartialDate → Bool) : TakesExact (onCalendar test) :=
  takes_exact_datetime fun d period sign form => by rw [form]

@[simp]
theorem takes_exact_plain_weekday : TakesExact plainWeekday :=
  takes_exact_datetime fun d period sign form => by rw [form]

@[simp]
theorem takes_exact_on_clock (test : DatetimeValue → ClockTime → Bool) :
    TakesExact (onClock test) :=
  takes_exact_datetime fun d period sign form => by rw [form]

@[simp]
theorem takes_exact_day_form : TakesExact dayForm :=
  takes_exact_datetime fun d period sign form => by rw [form]; rfl

@[simp]
theorem takes_exact_day_of_month : TakesExact dayOfMonth := by
  intro w passed known approximate
  cases w with
  | datetime d =>
      obtain ⟨period, sign, form⟩ := known d rfl (Option.some.inj approximate)
      have passes : (dayOf? (.datetime d)).isSome = true := Except.ok.inj passed
      rw [dayOf?, form] at passes
      cases passes
  | number n | ordinal o => cases approximate
  | _ => cases Except.ok.inj passed

end Datetimes

/-! What rules do with precision. -/

/-- A rule makes something approximate of anything approximate that it finds. -/
def HandsOn (r : Rule Value) : Prop :=
  ∀ text findings v, List.Forall₂ (Fits text ExactUnlessShift) r.items findings →
    r.produce findings = .ok (some v) →
    ∀ w, .value w ∈ findings → w.IsApproximate → v.IsApproximate

/-- What a production makes is approximate only if something it finds is. -/
def MarksNothing (produce : List (Finding Value) → Produced) : Prop :=
  ∀ findings v, produce findings = .ok (some v) → v.IsApproximate →
    ∃ w, .value w ∈ findings ∧ w.IsApproximate

section Handing

variable {r : Rule Value} {produce : List (Finding Value) → Produced}

theorem hands_on_of_exact (takes : ∀ item ∈ r.items, TakesExact item) : HandsOn r := by
  intro text findings v fits _ w member approximate
  obtain ⟨test, inside, passed, known⟩ := passed_of_fits fits member
  exact absurd approximate (takes _ inside w passed known)

theorem hands_on_of_shifts (shifts : Datetimes.Shifts r.produce) : HandsOn r := by
  intro text findings v _ ran w member approximate
  obtain ⟨d, sign, found, rfl⟩ := shifts.ok ran
  obtain rfl := (found w).mp member
  exact approximate

theorem marks_nothing_of_exact
    (plain : ∀ findings, MakesOnly (¬·.IsApproximate) (produce findings)) :
    MarksNothing produce := by
  intro findings v ran approximate
  exact absurd approximate (plain findings v ran)

theorem marks_nothing_of_yields {d : Dimension} (yields : Yields d produce)
    (plain : d ≠ .amountOfMoney ∧ d ≠ .duration ∧ d ≠ .datetime) : MarksNothing produce := by
  refine marks_nothing_of_exact fun findings v ran approximate => ?_
  have dimension := yields findings v ran
  cases v with
  | money v => exact plain.1 (Option.some.inj dimension).symm
  | duration v => exact plain.2.1 (Option.some.inj dimension).symm
  | datetime v => exact plain.2.2 (Option.some.inj dimension).symm
  | _ => cases approximate

theorem marks_nothing_of_tells (tells : Datetimes.TellsExactly produce) : MarksNothing produce := by
  refine marks_nothing_of_exact fun findings v ran approximate => ?_
  obtain ⟨form, latent, rfl⟩ := tells findings v ran
  cases approximate

theorem marks_nothing_of_shifts (shifts : Datetimes.Shifts produce) : MarksNothing produce := by
  intro findings v ran approximate
  obtain ⟨d, sign, found, rfl⟩ := shifts.ok ran
  exact ⟨.duration d, (found _).mpr rfl, approximate⟩

end Handing

theorem not_approximate_money (value : Numeral) (unit : Option String) (latent : Bool) :
    ¬(Value.money { value, unit, latent }).IsApproximate := by
  intro approximate
  cases approximate

theorem not_approximate_duration (period : Period) (latent : Bool) :
    ¬(Value.duration { period, latent }).IsApproximate := by
  intro approximate
  cases approximate

namespace Money

theorem price_exact (readings : Readings) (findings : List (Finding Value)) :
    MakesOnly (¬·.IsApproximate) (price readings findings) := by
  unfold price
  split
  · split <;> simp [not_approximate_money]
  · simp

theorem amount_then_currency_exact (findings : List (Finding Value)) :
    MakesOnly (¬·.IsApproximate) (amountThenCurrency findings) := by
  unfold amountThenCurrency
  split
  · exact makes_only_bind _ fun x => by simp [not_approximate_money]
  · simp

theorem code_then_amount_exact (findings : List (Finding Value)) :
    MakesOnly (¬·.IsApproximate) (codeThenAmount findings) := by
  unfold codeThenAmount
  split
  · exact makes_only_bind _ fun x => by simp [not_approximate_money]
  · simp

theorem rules_hand_on (readings : Readings) : ∀ r ∈ rules readings, HandsOn r := by
  simp only [rules, List.forall_mem_cons]
  exact ⟨hands_on_of_exact (by simp), hands_on_of_exact (by simp), hands_on_of_exact (by simp),
    hands_on_of_exact (by simp), hands_on_of_exact (by simp), by simp⟩

end Money

namespace Durations

theorem counted_exact (findings : List (Finding Value)) :
    MakesOnly (¬·.IsApproximate) (counted findings) := by
  unfold counted
  split
  · split <;> simp [not_approximate_duration]
  · simp

theorem single_exact (findings : List (Finding Value)) :
    MakesOnly (¬·.IsApproximate) (single findings) := by
  unfold single
  split <;> simp [not_approximate_duration]

theorem half_hour_exact (findings : List (Finding Value)) :
    MakesOnly (¬·.IsApproximate) (halfHour findings) := by
  unfold halfHour
  split <;> simp [not_approximate_duration]

theorem composite_ok {findings : List (Finding Value)} {v : Value}
    (ran : composite findings = .ok (some v)) :
    ∃ a m b, findings = [.value a, .text m, .value b] ∧ v.precision? = a.precision? := by
  unfold composite at ran
  split at ran
  · obtain ⟨merged, joins, made⟩ := (bind_ok_iff _ _ _).mp ran
    obtain ⟨d, rfl, rfl⟩ := Option.map_eq_some_iff.mp (Except.ok.inj made)
    rw [(merge_eq_some joins).1]
    exact ⟨_, _, _, rfl, rfl⟩
  · cases ran

theorem composite_marks_nothing : MarksNothing composite := by
  intro findings v ran approximate
  obtain ⟨a, m, b, rfl, same⟩ := composite_ok ran
  exact ⟨a, by simp, same.symm.trans approximate⟩

end Durations

/-- The rules that mark what they find as approximate. -/
def markingRules : List String := ["money: approximately", "duration: approximately"]

theorem Money.approximately_marks (findings : List (Finding Value)) :
    MakesOnly Value.IsApproximate (approximately findings) := by
  unfold approximately
  split
  · exact (makes_only_made _).mpr rfl
  · simp

theorem Durations.approximately_marks (findings : List (Finding Value)) :
    MakesOnly Value.IsApproximate (approximately findings) := by
  unfold approximately
  split
  · exact (makes_only_made _).mpr rfl
  · simp

theorem Money.rules_mark (readings : Readings) :
    ∀ r ∈ rules readings, r.name ∈ markingRules ∨ MarksNothing r.produce := by
  simp only [rules, List.forall_mem_cons]
  exact ⟨.inr (marks_nothing_of_yields currency_yields (by decide)),
    .inr (marks_nothing_of_exact (price_exact readings)),
    .inr (marks_nothing_of_exact amount_then_currency_exact),
    .inr (marks_nothing_of_exact code_then_amount_exact), .inl (by simp [markingRules]), by simp⟩

theorem Durations.rules_mark : ∀ r ∈ rules, r.name ∈ markingRules ∨ MarksNothing r.produce := by
  simp only [rules, List.forall_mem_cons]
  exact ⟨.inr (marks_nothing_of_yields grain_yields (by decide)),
    .inr (marks_nothing_of_exact counted_exact), .inr (marks_nothing_of_exact single_exact),
    .inr (marks_nothing_of_exact half_hour_exact), .inr composite_marks_nothing,
    .inl (by simp [markingRules]), by simp⟩

theorem Datetimes.combined_rules_mark_nothing : ∀ r ∈ combinedRules, MarksNothing r.produce := by
  simp only [combinedRules, List.forall_mem_cons]
  exact ⟨marks_nothing_of_tells date_at_time_exact, marks_nothing_of_tells time_on_date_exact,
    marks_nothing_of_shifts in_duration_shifts, marks_nothing_of_shifts (duration_then_shifts _),
    marks_nothing_of_shifts (duration_then_shifts _), marks_nothing_of_tells range_exact,
    marks_nothing_of_tells range_exact, by simp⟩

theorem rules_with_mark (readings : Readings) :
    ∀ r ∈ rulesWith readings, r.name ∈ markingRules ∨ MarksNothing r.produce := by
  intro r member
  simp only [rulesWith, Datetimes.rules, List.mem_append] at member
  rcases member with
    (((((number | ordinal) | temperature) | percentage) | money) | duration) | (day | time) | pair
  · exact .inr (marks_nothing_of_yields (Numbers.rules_yield readings r number) (by decide))
  · exact .inr (marks_nothing_of_yields (Ordinals.rules_yield readings r ordinal) (by decide))
  · exact .inr (marks_nothing_of_yields (Measures.temperature_rules_yield r temperature)
        (by decide))
  · exact .inr (marks_nothing_of_yields (Measures.percentage_rules_yield r percentage) (by decide))
  · exact Money.rules_mark readings r money
  · exact Durations.rules_mark r duration
  · exact .inr (marks_nothing_of_tells (Datetimes.day_rules_exact readings r day))
  · exact .inr (marks_nothing_of_tells (Datetimes.time_rules_exact r time))
  · exact .inr (Datetimes.combined_rules_mark_nothing r pair)

/-! What the nodes of a tree do with precision. -/

def intervalRules : List String := ["datetime: from to", "datetime: between and"]

/-- The children whose precision a node leaves aside: the second part of a composite duration, and
both ends of an interval. -/
def unheard (node : Node Value) : List (Node Value) :=
  if node.rule = "duration: composite" then node.children.drop 1
  else if node.rule ∈ intervalRules then node.children
  else []

/-- Every approximate child of what a rule builds is heard or left aside. -/
def Hears (r : Rule Value) : Prop :=
  ∀ text node, Builds text r node → (∀ child ∈ node.children, ExactUnlessShift child.value) →
    ∀ child ∈ node.children, child.value.IsApproximate →
      node.value.IsApproximate ∨ child ∈ unheard node

theorem hears_of_hands_on {r : Rule Value} (handsOn : HandsOn r) : Hears r := by
  intro text node built known child member approximate
  obtain ⟨findings, ⟨start, stop, v, spread, made, -, shape⟩, -⟩ := built
  have found := spread_values spread child member
  rw [shape]
  exact .inl (handsOn text findings v (spread_fits spread known) made _ found approximate)

section Composite

variable {first second : Value → Except Failure Bool} {p : Pattern}

theorem precision_composite {text : Array Char} {name : String} {node : Node Value}
    (built : Builds text ⟨name, [.value first, .text p, .value second], Durations.composite⟩ node) :
    ∃ left right, node.children = [left, right] ∧
      node.value.precision? = left.value.precision? := by
  obtain ⟨findings, ⟨start, stop, v, spread, made, -, shape⟩, -⟩ := built
  obtain ⟨left, right, m, -, -, -, -, -, -, rfl, parts⟩ := spread_value_text_value_iff.mp spread
  obtain ⟨a, _, b, found, same⟩ := Durations.composite_ok made
  cases found
  exact ⟨left, right, parts, by rw [shape]; exact same⟩

theorem hears_composite :
    Hears ⟨"duration: composite", [.value first, .text p, .value second], Durations.composite⟩ := by
  intro text node built known child member approximate
  obtain ⟨left, right, parts, same⟩ := precision_composite built
  obtain ⟨_, ⟨_, _, _, -, -, -, shape⟩, -⟩ := built
  have named : node.rule = "duration: composite" := by
    rw [shape]
    rfl
  rw [unheard, if_pos named, parts]
  rw [parts] at member
  rcases List.mem_cons.mp member with rfl | later
  · exact .inl (same.trans approximate)
  · exact .inr later

end Composite

theorem hears_interval {r : Rule Value} (named : r.name ∈ intervalRules) : Hears r := by
  intro text node built known child member approximate
  obtain ⟨_, ⟨_, _, _, -, -, -, shape⟩, -⟩ := built
  have same : node.rule = r.name := by
    rw [shape]
    rfl
  have other : r.name ≠ "duration: composite" := by
    rintro alike
    rw [alike] at named
    revert named
    decide
  rw [unheard, same, if_neg other, if_pos named]
  exact .inr member

theorem Durations.rules_hear : ∀ r ∈ rules, Hears r := by
  simp only [rules, List.forall_mem_cons]
  exact ⟨hears_of_hands_on (hands_on_of_exact (by simp)),
    hears_of_hands_on (hands_on_of_exact (by simp)),
    hears_of_hands_on (hands_on_of_exact (by simp)),
    hears_of_hands_on (hands_on_of_exact (by simp)), hears_composite,
    hears_of_hands_on (hands_on_of_exact (by simp)), by simp⟩

namespace Datetimes

theorem day_rules_hand_on (readings : Readings) : ∀ r ∈ dayRules readings, HandsOn r := by
  simp only [dayRules, List.forall_mem_cons]
  refine ⟨?_, ?_, ?_, ?_, ?_, ?_, ?_, ?_, ?_, ?_, ?_, ?_, ?_, ?_, ?_, ?_, by simp⟩
  all_goals exact hands_on_of_exact (by simp [year])

theorem time_rules_hand_on : ∀ r ∈ timeRules, HandsOn r := by
  simp only [timeRules, List.forall_mem_cons]
  refine ⟨?_, ?_, ?_, ?_, ?_, ?_, ?_, by simp⟩
  all_goals exact hands_on_of_exact (by simp)

theorem combined_rules_hear : ∀ r ∈ combinedRules, Hears r := by
  simp only [combinedRules, List.forall_mem_cons]
  exact ⟨hears_of_hands_on (hands_on_of_exact (by simp [timeForm])),
    hears_of_hands_on (hands_on_of_exact (by simp [timeForm])),
    hears_of_hands_on (hands_on_of_shifts in_duration_shifts),
    hears_of_hands_on (hands_on_of_shifts (duration_then_shifts _)),
    hears_of_hands_on (hands_on_of_shifts (duration_then_shifts _)),
    hears_interval (by simp [intervalRules]), hears_interval (by simp [intervalRules]), by simp⟩

end Datetimes

theorem Numbers.rules_hand_on (readings : Readings) : ∀ r ∈ rules readings, HandsOn r := by
  simp only [rules, List.forall_mem_cons]
  refine ⟨?_, ?_, ?_, ?_, ?_, ?_, ?_, ?_, ?_, by simp⟩
  all_goals exact hands_on_of_exact (by simp)

theorem Ordinals.rules_hand_on (readings : Readings) : ∀ r ∈ rules readings, HandsOn r := by
  simp only [rules, List.forall_mem_cons]
  refine ⟨?_, ?_, ?_, by simp⟩
  all_goals exact hands_on_of_exact (by simp)

theorem Measures.rules_hand_on : ∀ r ∈ temperatureRules ++ percentageRules, HandsOn r := by
  simp only [temperatureRules, percentageRules, List.cons_append, List.nil_append,
    List.forall_mem_cons]
  refine ⟨?_, ?_, ?_, ?_, ?_, by simp⟩
  all_goals exact hands_on_of_exact (by simp)

theorem rules_with_hear (readings : Readings) : ∀ r ∈ rulesWith readings, Hears r := by
  intro r member
  simp only [rulesWith, Datetimes.rules, List.mem_append] at member
  rcases member with
    (((((number | ordinal) | temperature) | percentage) | money) | duration) | (day | time) | pair
  · exact hears_of_hands_on (Numbers.rules_hand_on readings r number)
  · exact hears_of_hands_on (Ordinals.rules_hand_on readings r ordinal)
  · exact hears_of_hands_on (Measures.rules_hand_on r (List.mem_append_left _ temperature))
  · exact hears_of_hands_on (Measures.rules_hand_on r (List.mem_append_right _ percentage))
  · exact hears_of_hands_on (Money.rules_hand_on readings r money)
  · exact Durations.rules_hear r duration
  · exact hears_of_hands_on (Datetimes.day_rules_hand_on readings r day)
  · exact hears_of_hands_on (Datetimes.time_rules_hand_on r time)
  · exact Datetimes.combined_rules_hear r pair

/-! Trees. -/

section Trees

variable {rs : RuleSet Value} {readings : Readings} {text : Array Char} {node : Node Value}

/-- An approximate part of a tree is heard at the root, or lies in a child that some node leaves
aside. -/
theorem derives_hears (english : rs.rules = rulesWith readings) (derives : Derives rs text node) :
    ∀ part ∈ node.subtree, part.value.IsApproximate →
      node.value.IsApproximate ∨
        ∃ d ∈ node.subtree, ∃ child ∈ unheard d, part ∈ child.subtree := by
  have keeps : ∀ r ∈ rs.rules, Keeps ExactUnlessShift r := by
    rw [english]
    exact rules_with_exact_unless_shift readings
  induction derives with
  | intro node r member built parts ih =>
      intro part inside approximate
      rcases (Node.mem_subtree_iff node part).mp inside with rfl | ⟨child, below, deeper⟩
      · exact .inl approximate
      · rcases ih child below part deeper approximate with heard | ⟨d, within, lost⟩
        · have known := fun child member => derives_keeps keeps (parts child member)
          rw [english] at member
          have root := (Node.mem_subtree_iff node node).mpr (.inl rfl)
          exact (rules_with_hear readings r member text node built known child below heard).imp id
            fun aside => ⟨node, root, child, aside, deeper⟩
        · exact .inr ⟨d, (Node.mem_subtree_iff node d).mpr (.inr ⟨child, below, within⟩), lost⟩

theorem derives_marked (english : rs.rules = rulesWith readings) (derives : Derives rs text node)
    (approximate : node.value.IsApproximate) :
    ∃ part ∈ node.subtree, part.rule ∈ markingRules := by
  induction derives with
  | intro node r member built parts ih =>
      rw [english] at member
      obtain ⟨findings, ⟨start, stop, v, spread, made, -, shape⟩, -⟩ := built
      have named : node.rule = r.name := by
        rw [shape]
        rfl
      have value : node.value = v := by
        rw [shape]
        rfl
      rcases rules_with_mark readings r member with marks | nothing
      · exact ⟨node, (Node.mem_subtree_iff node node).mpr (.inl rfl), named ▸ marks⟩
      · obtain ⟨w, found, round⟩ := nothing findings v made (value ▸ approximate)
        have fits := spread_fits (P := fun w => ∃ child ∈ node.children, child.value = w) spread
          fun child below => ⟨child, below, rfl⟩
        obtain ⟨_, -, -, child, below, rfl⟩ := passed_of_fits fits found
        obtain ⟨part, within, marks⟩ := ih child below round
        exact ⟨part, (Node.mem_subtree_iff node part).mpr (.inr ⟨child, below, within⟩), marks⟩

end Trees

/-! Rules by their names. -/

section Named

variable {rs : RuleSet Value} {readings : Readings} {text : Array Char} {node : Node Value}

theorem composite_rule_shape (readings : Readings) :
    ∀ r ∈ rulesWith readings, r.name = "duration: composite" →
      r.produce = Durations.composite ∧
        ∃ first p second, r.items = [.value first, .text p, .value second] := by
  simp [rulesWith, Numbers.rules, Ordinals.rules, Measures.temperatureRules,
    Measures.percentageRules, Money.rules, Durations.rules, Datetimes.rules, Datetimes.dayRules,
    Datetimes.timeRules, Datetimes.combinedRules, Test.of, Item.holding]

theorem interval_rules_produce (readings : Readings) :
    ∀ r ∈ rulesWith readings, r.name ∈ intervalRules → r.produce = Datetimes.range := by
  simp [intervalRules, rulesWith, Numbers.rules, Ordinals.rules, Measures.temperatureRules,
    Measures.percentageRules, Money.rules, Durations.rules, Datetimes.rules, Datetimes.dayRules,
    Datetimes.timeRules, Datetimes.combinedRules]

theorem marking_rules_produce (readings : Readings) :
    ∀ r ∈ rulesWith readings, r.name ∈ markingRules →
      r.produce = Money.approximately ∨ r.produce = Durations.approximately := by
  simp [markingRules, rulesWith, Numbers.rules, Ordinals.rules, Measures.temperatureRules,
    Measures.percentageRules, Money.rules, Durations.rules, Datetimes.rules, Datetimes.dayRules,
    Datetimes.timeRules, Datetimes.combinedRules]

theorem derives_made (english : rs.rules = rulesWith readings) (derives : Derives rs text node) :
    ∃ r ∈ rulesWith readings, r.name = node.rule ∧ Builds text r node ∧
      ∃ findings, r.produce findings = .ok (some node.value) := by
  obtain ⟨_, r, member, built, _⟩ := derives
  have parts := built
  obtain ⟨findings, ⟨start, stop, v, -, made, -, shape⟩, -⟩ := parts
  rw [english] at member
  refine ⟨r, member, ?_, built, findings, ?_⟩
  · rw [shape]
    rfl
  · rw [shape]
    exact made

theorem derives_composite (english : rs.rules = rulesWith readings) (derives : Derives rs text node)
    (named : node.rule = "duration: composite") :
    ∃ left right, node.children = [left, right] ∧
      node.value.precision? = left.value.precision? := by
  obtain ⟨⟨name, items, produce⟩, member, same, built, -⟩ := derives_made english derives
  obtain ⟨rfl, first, p, second, rfl⟩ :=
    composite_rule_shape readings _ member (same.trans named)
  exact precision_composite built

theorem derives_interval (english : rs.rules = rulesWith readings) (derives : Derives rs text node)
    (named : node.rule ∈ intervalRules) : node.value.precision? = some .exact := by
  obtain ⟨r, member, same, -, findings, made⟩ := derives_made english derives
  rw [interval_rules_produce readings r member (same ▸ named)] at made
  obtain ⟨form, latent, told⟩ := Datetimes.range_exact findings _ made
  rw [told]
  rfl

theorem derives_marking (english : rs.rules = rulesWith readings) (derives : Derives rs text node)
    (named : node.rule ∈ markingRules) : node.value.IsApproximate := by
  obtain ⟨r, member, same, -, findings, made⟩ := derives_made english derives
  rcases marking_rules_produce readings r member (same ▸ named) with money | duration
  · rw [money] at made
    exact Money.approximately_marks findings _ made
  · rw [duration] at made
    exact Durations.approximately_marks findings _ made

end Named

/-- An approximation anywhere in a tree makes the root approximate, unless it lies in the second
part of a composite duration or in an end of an interval: a composite duration has the precision of
its first part, and an interval is exact. Nothing else is approximate than what "about" and the like
marked, and an output has the precision of its value. -/
theorem derives_precision (rs : RuleSet Value) (readings : Readings)
    (english : rs.rules = rulesWith readings) (text : Array Char) (node : Node Value)
    (derives : Derives rs text node) :
    (∀ part ∈ node.subtree, part.value.IsApproximate →
      node.value.IsApproximate ∨
        ∃ d ∈ node.subtree, ∃ child ∈ unheard d, part ∈ child.subtree) ∧
    (node.rule = "duration: composite" → ∃ left right, node.children = [left, right] ∧
      node.value.precision? = left.value.precision?) ∧
    (node.rule ∈ intervalRules → node.value.precision? = some .exact) ∧
    (node.rule ∈ markingRules → node.value.IsApproximate) ∧
    (node.value.IsApproximate → ∃ part ∈ node.subtree, part.rule ∈ markingRules) ∧
    ∀ kind context output, node.value.resolve kind context = .ok output →
      output.precision? = node.value.precision? :=
  ⟨derives_hears english derives, derives_composite english derives,
    derives_interval english derives, derives_marking english derives,
    derives_marked english derives,
    fun kind context => Value.resolve_precision kind node.value context⟩

theorem exists_of_grown (text : Array Char) (rs : RuleSet Value) (test : Node Value → Bool)
    (grown : (rs.apply text).toOption.map (fun found => found.1.any fun e => test e.node) =
      some true) :
    ∃ entries notices, rs.apply text = .ok (entries, notices) ∧
      ∃ e ∈ entries, test e.node = true := by
  obtain ⟨⟨entries, notices⟩, returned, some⟩ := exists_ok_of_map grown
  exact ⟨entries, notices, returned, List.any_eq_true.mp some⟩

/-- About a minute ago: the approximation reaches the time, and its output. -/
theorem about_minute_ago_precision : ∃ entries notices,
    (ruleSetWith usualReadings).apply #['~', 'a', ' ', 'm', 'i', 'n', ' ', 'a', 'g', 'o'] =
      .ok (entries, notices) ∧
    ∃ e ∈ entries, e.node.rule = "datetime: duration ago" ∧
      Derives (ruleSetWith usualReadings) #['~', 'a', ' ', 'm', 'i', 'n', ' ', 'a', 'g', 'o']
        e.node ∧
      e.node.value.IsApproximate ∧ ∀ kind context output,
        e.node.value.resolve kind context = .ok output →
          output.precision? = some .approximate := by
  obtain ⟨entries, notices, ran, e, member, tested⟩ := exists_of_grown
    #['~', 'a', ' ', 'm', 'i', 'n', ' ', 'a', 'g', 'o'] (ruleSetWith usualReadings)
    (fun node => node.rule == "datetime: duration ago" &&
      node.subtree.any (·.value.precision? == some .approximate) &&
      node.subtree.all fun d => (unheard d).isEmpty) (by
      rw [RuleSet.apply_eq_listed]
      decide +kernel)
  simp only [Bool.and_eq_true, beq_iff_eq, List.any_eq_true, List.all_eq_true,
    List.isEmpty_iff] at tested
  obtain ⟨⟨named, part, within, approximate⟩, heard⟩ := tested
  have derives := RuleSet.apply_sound ran e member
  obtain ⟨kept, -, -, -, -, outputs⟩ :=
    derives_precision (ruleSetWith usualReadings) usualReadings rfl _ e.node derives
  rcases kept part within approximate with round | ⟨d, inside, child, aside, -⟩
  · refine ⟨entries, notices, ran, e, member, named, derives, round, ?_⟩
    exact fun kind context output resolved => (outputs kind context output resolved).trans round
  · rw [heard d inside] at aside
    cases aside

/-- A day and about a minute: the sum is exact although its second part is not. -/
theorem day_about_minute_exact : ∃ entries notices,
    (ruleSetWith usualReadings).apply
      #['a', ' ', 'd', 'a', 'y', ' ', '~', 'a', ' ', 'm', 'i', 'n'] = .ok (entries, notices) ∧
    ∃ e ∈ entries, e.node.value.precision? = some .exact ∧
      ∃ part ∈ e.node.subtree, part.value.IsApproximate := by
  obtain ⟨entries, notices, ran, e, member, tested⟩ := exists_of_grown
    #['a', ' ', 'd', 'a', 'y', ' ', '~', 'a', ' ', 'm', 'i', 'n'] (ruleSetWith usualReadings)
    (fun node => node.value.precision? == some .exact &&
      node.subtree.any (·.value.precision? == some .approximate)) (by
      rw [RuleSet.apply_eq_listed]
      decide +kernel)
  simp only [Bool.and_eq_true, beq_iff_eq, List.any_eq_true] at tested
  exact ⟨entries, notices, ran, e, member, tested⟩

end English

end Reckon

import Mathlib
import Reckon.Proofs.English.DurationsBuilt
import Reckon.Proofs.English.NumberTexts
import Reckon.Proofs.Forest.Heights

/-!
# Forests of counted units are not cut short

If the units of a text go from coarse to fine, it has at most seven parts. Then no tree is higher
than eight levels; and as a place and a role tell a tree, and of the shapes of up to seven parts
there are 197, there are at most 1414 trees. The rules do not fail on the text, so they build all of
them.
-/

set_option autoImplicit false

namespace Reckon.English

open Forest
open Pattern hiding some

/-- The digits of a count that can be converted are not too many to be read. -/
theorem digits_readable {n : Nat} (small : n < 10 ^ 308) :
    (Nat.toDigits 10 n).length ≤ digitLimit := by
  have short {k : Nat} (some : 0 < k) (less : n < 10 ^ k) : (Nat.toDigits 10 n).length ≤ k :=
    (Nat.length_toDigits_le_iff (by decide) some).mpr less
  exact (short (by decide) small).trans (by decide)

/-! Roles. -/

noncomputable def rolesOver (most : Nat) : List Role :=
  [.count, .temperature, .year, .hour, .unit] ++
    (List.range most).flatMap fun n => (BinaryTree.treesOfNumNodesEq n).toList.map .length

theorem mem_roles_over {role : Role} {most : Nat} (narrow : role.width ≤ most) :
    role ∈ rolesOver most := by
  cases role with
  | length shape =>
      refine List.mem_append_right _ (List.mem_flatMap.mpr ⟨shape.numNodes, ?_, ?_⟩)
      · exact List.mem_range.mpr narrow
      · exact List.mem_map_of_mem (Finset.mem_toList.mpr
          (BinaryTree.mem_treesOfNumNodesEq_numNodes shape))
  | _ => exact List.mem_append_left _ (by simp)

theorem roles_over_seven : (rolesOver 7).length = 202 := by
  simp [rolesOver, BinaryTree.treesOfNumNodesEq_card_eq_catalan,
    List.range_succ, catalan_eq_centralBinom_div, Nat.centralBinom, Nat.choose]

theorem Role.height_le (role : Role) : role.height ≤ role.width + 1 := by
  cases role <;> simp [height, width]

namespace DurationText

variable {rs : RuleSet Value} {readings : Readings} {text : Array Char} {total : Nat}
  {slot : Nat → Slot} {node : Node Value}

theorem total_le
    (finer : ∀ i j, i < j → j < total → (slot j).grain.size < (slot i).grain.size) : total ≤ 7 := by
  have sizes : ∀ g : Grain, g.size ≤ 6 := by
    intro g
    cases g <;> decide
  have room : ∀ i < total, (slot i).grain.size + i ≤ 6 := by
    intro i
    induction i with
    | zero => exact fun _ => sizes _
    | succ i ih =>
        intro inside
        have before := ih (by omega)
        have less := finer i (i + 1) (by omega) inside
        omega
  by_contra more
  have last := room 7 (by omega)
  omega

theorem HasRole.key_mem (known : HasRole total slot node) (few : total ≤ 7) :
    node.key ∈ (List.range 7).flatMap fun i => (rolesOver 7).map (Role.key slot i) := by
  obtain ⟨role, i, plays⟩ := known
  have inside := plays.inside
  have positive : 0 < role.width := by cases role <;> simp [Role.width]
  refine List.mem_flatMap.mpr ⟨i, List.mem_range.mpr (by omega), ?_⟩
  rw [plays.key]
  exact List.mem_map_of_mem (mem_roles_over (by omega))

theorem HasRole.height_le (known : HasRole total slot node) (few : total ≤ 7) :
    node.height ≤ 8 := by
  obtain ⟨role, i, plays⟩ := known
  have inside := plays.inside
  have low := plays.low
  have bound := role.height_le
  omega

/-- As keys tell trees apart, a forest of nodes with roles is small. -/
theorem length_le {entries : List (Entry Value)} (few : total ≤ 7)
    (known : ∀ e ∈ entries, HasRole total slot e.node)
    (keys : (entries.map (·.node.key)).Nodup) : entries.length ≤ 1414 := by
  have inside : entries.map (·.node.key) ⊆
      (List.range 7).flatMap fun i => (rolesOver 7).map (Role.key slot i) := by
    intro key member
    obtain ⟨e, listed, rfl⟩ := List.mem_map.mp member
    exact HasRole.key_mem (known e listed) few
  have bound := (List.subperm_of_subset keys inside).length_le
  simpa [List.length_flatMap, roles_over_seven] using bound

/-! The rules do not fail. -/

section Failures

variable (only : DurationText text total slot)

include only

theorem look_ups_return
    (readable : ∀ i < total, (Nat.toDigits 10 (slot i).count).length ≤ digitLimit) :
    ∀ row ∈ lookUps, ∀ pos m, row.1.matchAt text pos = some m → Returns (row.2 [.text m]) := by
  have absent {p : Pattern} {produce : List (Finding Value) → Produced}
      (none : ∀ pos, p.matchAt text pos = none) :
      ∀ pos m, p.matchAt text pos = some m → Returns (produce [.text m]) := by
    intro pos m found
    rw [none pos] at found
    cases found
  simp only [lookUps, List.forall_mem_cons]
  refine ⟨absent (only.match_at_whole_word (by decide)), absent (only.foreign (by decide)), ?_,
    absent only.ordinal_digits_absent, ?_, absent only.relative_day_words_absent,
    absent (only.match_at_starts relative_grain_words_start (by decide) (by decide)),
    absent (only.match_at_starts weekday_word_starts (by decide) (by decide)),
    absent (only.match_at_starts month_word_starts (by decide) (by decide)), by simp⟩
  · intro pos m found
    obtain ⟨i, inside, rfl, stop⟩ := only.plain_at_place (plain_at_of_match found)
    obtain ⟨start, -, -, content⟩ := match_at_range text _ _ m found
    rw [start, stop, (only.lies i inside).digits] at content
    rw [Numbers.digits, content, readInteger, Text.digit_count_to_digits,
      if_neg (Nat.not_lt.mpr (readable i inside))]
    exact returns_made _
  · intro pos m found
    obtain ⟨word, listed, stands, stop⟩ := Durations.unit_word_stands found
    obtain ⟨i, inside, rfl, rfl⟩ :=
      only.stands_unit stands (Durations.unit_names_plain word listed)
    obtain ⟨start, -, -, content⟩ := match_at_range text _ _ m found
    rw [← Slot.stop] at stop
    rw [start, stop, (only.lies i inside).name] at content
    exact ⟨_, grain_unit content⟩

/-- The English rules do not fail if the counts can be converted to floating-point numbers. -/
theorem manageable (english : rs.rules = rulesWith readings)
    (small : ∀ i < total, (slot i).count < 10 ^ 308) : Manageable rs text where
  words := only.look_ups_return fun i inside => digits_readable (small i inside)
  directions := by
    intro pos m found
    rw [only.match_at_starts direction_word_starts (by decide) (by decide) pos] at found
    cases found
  numbers := by
    intro node derives n value
    obtain ⟨i, rfl, plays⟩ := (only.derives_known english derives).count value
    have inside := plays.inside
    have short : (((slot i).count : Nat) : Int).natAbs ≤ greatestFinite :=
      (small i inside).le.trans le_greatest_finite
    obtain ⟨x, known⟩ := of_int?_returns short
    exact ⟨x, by rw [Numeral.toFloat, known]⟩

/-- All trees of the text are built. -/
theorem apply_whole (readings : Readings) (small : ∀ i < total, (slot i).count < 10 ^ 308)
    (finer : ∀ i j, i < j → j < total → (slot j).grain.size < (slot i).grain.size) :
    ∃ entries, (ruleSetWith readings).apply text = .ok (entries, []) := by
  have few := total_le finer
  have distinct : (ruleSetWith readings).ruleNames.Nodup := rules_with_distinct readings
  have manageable : Manageable (ruleSetWith readings) text := only.manageable rfl small
  have unfailing := manageable.unfailing rfl
  obtain ⟨entries, notices, ran, ⟨rfl, -⟩ | ⟨-, full⟩⟩ := RuleSet.apply_within distinct unfailing
    (fun node derives => HasRole.height_le (only.derives_known rfl derives) few)
    (show (8 : Int) < 16 by decide)
  · exact ⟨entries, ran⟩
  · obtain ⟨k, exhausts, -⟩ := RuleSet.apply_exact distinct ran
    have bound := length_le few
      (fun e member => only.derives_known rfl (RuleSet.apply_sound ran e member))
      (RuleSet.keys_nodup distinct exhausts)
    have cap : (ruleSetWith readings).maxNodes = 4000 := rfl
    omega

end Failures

end DurationText

end Reckon.English

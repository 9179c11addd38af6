import Reckon.Proofs.English.NumberReadings
import Reckon.Proofs.English.Returning
import Reckon.Proofs.Pattern.Leading

/-!
# Texts of number words

A text that consists of number words with spaces and hyphens between them. No other word of the
grammar stands in it and no digits do, so the rules look up in it only words that are listed; and
the numbers that they build of its words stay below a million millions. So the rules do not fail on
such a text.
-/

set_option autoImplicit false

namespace Reckon.English

open Forest
open Pattern hiding some

/-! Words by name. -/

def vocabulary : List (String × Word) :=
  ("zero", .plain 0 false) :: units.map (fun row => (row.1, .plain row.2 (10 ≤ row.2))) ++
    tens.map (fun row => (row.1, .plain row.2 true)) ++
    [("hundred", .power 2 (by decide)), ("thousand", .power 3 (by decide)),
      ("million", .power 6 (by decide)), ("billion", .power 9 (by decide))]

theorem vocabulary_plain : ∀ row ∈ vocabulary, IsPlain row.1 := by
  decide

theorem vocabulary_lowered : ∀ row ∈ vocabulary, lowered row.1.toList = row.1 := by
  decide

/-- Readings that give the words for units and tens their usual numbers. -/
def Readings.Usual (readings : Readings) : Prop :=
  ∀ row ∈ units ++ tens, readings.number (Numbers.respelled row.1) = some row.2

theorem usual_readings_usual : usualReadings.Usual := by
  unfold Readings.Usual
  decide

section Names

variable {readings : Readings} {m : Match}

theorem unit_names (usual : readings.Usual) {row : String × Int} (listed : row ∈ units)
    (content : lowered m.content = row.1) : Numbers.unit readings [.text m] =
      .ok (some (.number (Word.plain row.2 (10 ≤ row.2)).number)) := by
  have known := usual row (List.mem_append_left _ listed)
  have same : ∀ row ∈ units, Numbers.respelled row.1 = row.1 ∧ row.1 ≠ "zero" := by decide
  rw [(same row listed).1] at known
  simp only [Numbers.unit, content, if_neg (same row listed).2, known]
  by_cases large : 10 ≤ row.2 <;> simp [large, made, Numbers.wordNumber, Word.number, Word.grain]

theorem ten_names (usual : readings.Usual) {row : String × Int} (listed : row ∈ tens)
    (content : lowered m.content = row.1) : Numbers.ten readings [.text m] =
      .ok (some (.number (Word.plain row.2 true).number)) := by
  have known := usual row (List.mem_append_right _ listed)
  simp only [Numbers.ten, content, known]
  rfl

theorem power_names {row : String × Nat} (listed : row ∈ powers) (large : 2 ≤ row.2)
    (content : lowered m.content = row.1) :
    Numbers.power [.text m] = .ok (some (.number (Word.power row.2 large).number)) := by
  have known : ∀ row ∈ powers, entryOf powers row.1 = .ok row.2 := by
    simp only [powers, List.forall_mem_cons]
    exact ⟨rfl, rfl, rfl, rfl, by simp⟩
  simp only [Numbers.power, content, known row listed]
  rfl

/-- The rule that lists a number word makes of it what it stands for. -/
theorem lexicon_names (usual : readings.Usual) {word : String} {w : Word}
    (named : (word, w) ∈ vocabulary) : ∃ entry ∈ Numbers.lexicon readings, word ∈ entry.1 ∧
      ∀ m : Match, m.content = word.toList →
        entry.2 [.text m] = .ok (some (.number w.number)) := by
  have spelled : ∀ m : Match, m.content = word.toList → lowered m.content = word := by
    intro m content
    rw [content]
    exact vocabulary_lowered (word, w) named
  simp only [vocabulary, List.cons_append, List.mem_cons, List.mem_append, List.mem_map,
    List.not_mem_nil, or_false, Prod.mk.injEq] at named
  rcases named with
    ⟨rfl, rfl⟩ | (⟨row, listed, rfl, rfl⟩ | ⟨row, listed, rfl, rfl⟩) | power
  · refine ⟨_, .head _, by simp, fun m content => ?_⟩
    simp only [Numbers.unit, spelled m content, if_true]
    rfl
  · exact ⟨_, .head _, List.mem_cons_of_mem _ (List.mem_map_of_mem listed),
      fun m content => unit_names usual listed (spelled m content)⟩
  · exact ⟨_, .tail _ (.head _), List.mem_map_of_mem listed,
      fun m content => ten_names usual listed (spelled m content)⟩
  · have listed : ∃ row ∈ powers, ∃ large, word = row.1 ∧ w = .power row.2 large := by
      rcases power with ⟨rfl, rfl⟩ | ⟨rfl, rfl⟩ | ⟨rfl, rfl⟩ | ⟨rfl, rfl⟩ <;> simp [powers]
    obtain ⟨row, listed, large, rfl, rfl⟩ := listed
    exact ⟨_, .tail _ (.tail _ (.head _)), List.mem_map_of_mem listed,
      fun m content => power_names listed large (spelled m content)⟩

end Names

/-! Texts. -/

/-- A text of number words between spaces and hyphens. -/
structure NumberText (text : Array Char) : Prop where
  letters : ∀ c ∈ text, c.isLower = true ∨ c = ' ' ∨ c = '-'
  words : ∀ pos, isEdge text pos = true → isWordAt text pos = true →
    ∃ row ∈ vocabulary, StandsAt text pos row.1

section Texts

variable {text : Array Char} {pos : Nat} {p : Pattern} {m : Match} {word : String}
  {cs : List Char}

theorem matches_letter_self {c : Char} (lower : c.isLower = true) :
    CharClass.matchesLetter c c = true := by
  have code := to_nat_of_is_lower lower
  simp [CharClass.matchesLetter, to_lower_of_large (show 90 < c.toNat by omega)]

theorem NumberText.eq_letter (only : NumberText text) {letter c : Char}
    (lower : letter.isLower = true) (here : text[pos]? = some c)
    (stands : CharClass.matchesLetter letter c = true) : c = letter := by
  rcases only.letters c (Array.mem_of_getElem? here) with small | rfl | rfl
  · exact letter_unique small lower (matches_letter_self small) stands
  · have code := code_of_letter lower stands
    simp at code
  · have code := code_of_letter lower stands
    simp at code

theorem NumberText.content (only : NumberText text) (reads : ReadsAt text pos cs)
    (lower : ∀ c ∈ cs, c.isLower = true) : charsBetween text pos (pos + cs.length) = cs := by
  induction cs generalizing pos with
  | nil => exact chars_between_self text pos
  | cons c cs ih =>
      obtain ⟨⟨d, here, accepted⟩, later⟩ := reads
      rw [accepts_literal_class (lower c List.mem_cons_self)] at accepted
      have same := only.eq_letter (lower c List.mem_cons_self) here accepted
      subst same
      have rest := ih later fun e member => lower e (List.mem_cons_of_mem _ member)
      rw [List.length_cons, Nat.add_comm cs.length, ← Nat.add_assoc,
        chars_between_append text (Nat.le_succ pos) (Nat.le_add_right _ _), chars_between_one here,
        rest]
      rfl

theorem NumberText.word_at (only : NumberText text) {readings : Readings} (usual : readings.Usual)
    {w : Word} (named : (word, w) ∈ vocabulary) (stands : StandsAt text pos word) :
    WordAt readings text pos w (pos + word.toList.length) := by
  obtain ⟨entry, belongs, listed, names⟩ := lexicon_names usual named
  have plain := Numbers.lexicon_plain readings entry belongs
  obtain ⟨m, found, start, stop⟩ := stands.match_at listed plain
  obtain ⟨-, -, -, content⟩ := match_at_range text _ pos m found
  refine ⟨entry, belongs, m, found, stop, names m ?_⟩
  rw [content, start, stop]
  exact only.content stands.reads (plain word listed).2

/-- Only number words in their usual meaning are taken for words in such a text. -/
theorem NumberText.named (only : NumberText text) {readings : Readings} (usual : readings.Usual)
    {w : Word} {stop : Nat} (here : WordAt readings text pos w stop) :
    ∃ word, (word, w) ∈ vocabulary := by
  obtain ⟨entry, belongs, word, listed, stands, -⟩ := here.stands
  have plain := Numbers.lexicon_plain readings entry belongs word listed
  have letter := stands.reads.is_word_at plain.2 (List.length_pos_iff.mpr plain.1)
  obtain ⟨⟨other, v⟩, named, standsToo⟩ := only.words pos stands.opens letter
  have same := ((only.word_at usual named standsToo).unique here).1
  subst same
  exact ⟨other, named⟩

theorem NumberText.not_literal (only : NumberText text)
    (opens : ∃ c, text[pos]? = some c ∧ (Text.isDigit c = true ∨ c = '.')) : False := by
  obtain ⟨c, here, literal⟩ := opens
  rcases only.letters c (Array.mem_of_getElem? here) with small | rfl | rfl
  · rw [is_digit_of_letter small (matches_letter_self small)] at literal
    rcases literal with digit | rfl
    · cases digit
    · revert small
      decide
  · revert literal
    decide
  · revert literal
    decide

theorem NumberText.not_digits (only : NumberText text) (found : p.matchAt text pos = some m)
    (solid : p.mayBeEmpty = false) (opens : p.openings = [.digit]) : False := by
  have way := matches_at_of_match_at found
  obtain ⟨c, here, cls, member, accepted⟩ := way.opens (way.covers solid)
  rw [opens, List.mem_singleton] at member
  subst member
  exact only.not_literal ⟨c, here, .inl accepted⟩

theorem NumberText.not_starts (only : NumberText text) {heads : List String}
    (starts : StartsWord heads p) (found : p.matchAt text pos = some m)
    (plain : ∀ head ∈ heads, IsPlain head)
    (differ : ∀ head ∈ heads, ∀ row ∈ vocabulary, Differ head row.1) : False := by
  obtain ⟨opens, head, listed, reads⟩ := starts.match_at found
  have plainHead := plain head listed
  have letter := reads.is_word_at plainHead.2 (List.length_pos_iff.mpr plainHead.1)
  obtain ⟨row, named, stands⟩ := only.words pos opens letter
  exact stands.not_reads (vocabulary_plain row named) plainHead (differ head listed row named)
    reads

end Texts

/-! What the rules look up. -/

section LookUps

theorem unit_word_starts :
    StartsWord ["sec", "min", "hour", "hr", "day", "week", "month", "year", "yr"]
      Durations.unitWord := by
  apply starts_word_whole
  apply leads_any_of
  simp only [List.forall_mem_cons]
  refine ⟨?_, ?_, ?_, ?_, ?_, ?_, ?_, ?_, ?_, by simp⟩
  · exact leads_seq (leads_seq (leads_literal (by decide)))
  · exact leads_seq (leads_seq (leads_literal (by decide)))
  all_goals exact leads_seq (leads_literal (by decide))

theorem relative_day_words_start :
    StartsWord ["the", "day", "today", "tomorrow", "yesterday"] Datetimes.relativeDayWords := by
  apply starts_word_whole
  apply leads_group
  apply leads_any_of
  simp only [List.forall_mem_cons]
  refine ⟨?_, ?_, ?_, ?_, ?_, by simp⟩
  · exact leads_skip (leads_seq (leads_literal (by decide)))
      (leads_sequence (leads_literal (by decide)))
  · exact leads_skip (leads_seq (leads_literal (by decide)))
      (leads_sequence (leads_literal (by decide)))
  all_goals exact leads_literal (by decide)

theorem relative_grain_words_start : StartsWord
    ["this", "current", "next", "coming", "upcoming", "last", "past", "previous"]
    Datetimes.relativeGrainWords :=
  starts_word_whole (leads_sequence (leads_group (leads_words _)))

theorem direction_word_starts : StartsWord
    ["this", "next", "coming", "upcoming", "last", "past", "previous"]
    Datetimes.directionWord :=
  starts_word_whole (leads_words _)

theorem weekday_word_starts : StartsWord weekdayWords Datetimes.weekdayWord :=
  starts_word_whole (leads_group (leads_words _))

theorem month_word_starts : StartsWord monthWords Datetimes.monthWord :=
  starts_word_seq (starts_word_whole (leads_group (leads_words _)))

variable {text : Array Char}

/-- The powers of ten are the only words of the tables that stand in a text of number words. -/
theorem NumberText.look_ups_return (only : NumberText text) :
    ∀ row ∈ lookUps, ∀ pos m, row.1.matchAt text pos = some m → Returns (row.2 [.text m]) := by
  simp only [lookUps, List.forall_mem_cons]
  refine ⟨?_, ?_, ?_, ?_, ?_, ?_, ?_, ?_, ?_, by simp⟩
  · intro pos m found
    obtain ⟨word, listed, stands, start, stop⟩ := match_at_whole_word found
    obtain ⟨row, member, rfl⟩ := List.mem_map.mp listed
    have plain : ∀ row ∈ powers, IsPlain row.1 ∧ lowered row.1.toList = row.1 ∧ 2 ≤ row.2 := by
      decide
    obtain ⟨⟨-, lower⟩, spelled, large⟩ := plain row member
    obtain ⟨-, -, -, content⟩ := match_at_range text _ pos m found
    rw [start, stop, only.content stands.reads lower] at content
    exact ⟨_, power_names member large (by rw [content, spelled])⟩
  · intro pos m found
    exact (only.not_digits found rfl rfl).elim
  · intro pos m found
    exact (only.not_digits found rfl rfl).elim
  · intro pos m found
    exact (only.not_digits found rfl rfl).elim
  · intro pos m found
    exact (only.not_starts unit_word_starts found (by decide) (by decide)).elim
  · intro pos m found
    exact (only.not_starts relative_day_words_start found (by decide) (by decide)).elim
  · intro pos m found
    exact (only.not_starts relative_grain_words_start found (by decide) (by decide)).elim
  · intro pos m found
    exact (only.not_starts weekday_word_starts found (by decide) (by decide)).elim
  · intro pos m found
    exact (only.not_starts month_word_starts found (by decide) (by decide)).elim

end LookUps

/-! How large the numbers are. -/

def Word.Small : Word → Prop
  | plain value _ => 0 ≤ value ∧ value < 100
  | power exponent _ => exponent ≤ 9

instance : DecidablePred Word.Small := fun w =>
  match w with
  | .plain value _ => inferInstanceAs (Decidable (0 ≤ value ∧ value < 100))
  | .power exponent _ => inferInstanceAs (Decidable (exponent ≤ 9))

theorem vocabulary_small : ∀ row ∈ vocabulary, row.2.Small := by
  decide

theorem add_lt_of_dvd {a b : Int} {g : Nat} (few : g ≤ 12) (below : a < 10 ^ 12)
    (whole : a % 10 ^ g = 0) (less : b < 10 ^ g) : a + b < 10 ^ 12 := by
  obtain ⟨k, rfl⟩ := Int.dvd_of_emod_eq_zero whole
  have split : (10 : Int) ^ 12 = 10 ^ g * 10 ^ (12 - g) := by
    rw [← pow_add]
    congr 1
    omega
  have unit : (0 : Int) < 10 ^ g := by positivity
  have blocks : k < 10 ^ (12 - g) := by
    rw [split] at below
    exact lt_of_mul_lt_mul_left below unit.le
  calc 10 ^ g * k + b < 10 ^ g * k + 10 ^ g := by omega
    _ = 10 ^ g * (k + 1) := by rw [mul_add, mul_one]
    _ ≤ 10 ^ g * 10 ^ (12 - g) := by
      apply mul_le_mul_of_nonneg_left _ unit.le
      omega
    _ = 10 ^ 12 := split.symm

theorem Reads.bounded {ws : List Word} {n : NumberValue} (reads : Reads ws n)
    (small : ∀ w ∈ ws, w.Small) : ∃ value grain : Int, n.value = .int value ∧
      n.grain = some grain ∧ 0 ≤ value ∧ value < 10 ^ 12 ∧ grain ≤ 9 := by
  induction reads with
  | word w =>
      have size := small w (List.mem_singleton_self w)
      cases w with
      | plain value inTens =>
          refine ⟨value, _, rfl, rfl, size.1, ?_, ?_⟩
          · have most := size.2
            norm_num
            omega
          · cases inTens <;> simp [Word.grain]
      | power e large =>
          have most : e ≤ 9 := size
          refine ⟨10 ^ e, e, by simp [Word.number, Binary64.tenTo], rfl, by positivity, ?_, ?_⟩
          · exact pow_lt_pow_right₀ (by norm_num) (by omega)
          · omega
  | @scale ws vs a p n left right bare scaled ihLeft ihRight =>
      obtain ⟨e, large, rfl, rfl⟩ := right.eq_power bare
      have most : e ≤ 9 := small (.power e large) (by simp)
      obtain ⟨factor, power, low, high, hf, hp, -, hl, least, less, -, rfl⟩ :=
        (Numbers.scale_eq_some_iff _ _ _).mp scaled
      cases hp
      cases hl
      have unit : (10 : Int) ^ e ≤ 10 ^ 9 := pow_le_pow_right₀ (by norm_num) most
      have positive : (0 : Int) < 10 ^ e := by positivity
      refine ⟨factor * 10 ^ e, e, by simp [Binary64.tenTo], rfl, ?_, ?_, by omega⟩
      · positivity
      · nlinarith
  | @join ws vs a b n left right whole joined ihLeft ihRight =>
      obtain ⟨value, grain, hv, hg, nonneg, below, few⟩ :=
        ihLeft fun w member => small w (List.mem_append_left _ member)
      obtain ⟨other, last, ho, hl, -, -, fewToo⟩ :=
        ihRight fun w member => small w (List.mem_append_right _ member)
      obtain ⟨x, y, g, hx, hy, hg', -, zeros, positive, less, rfl⟩ :=
        (Numbers.join_eq_some_iff _ _ _).mp joined
      rw [hv] at hx
      rw [ho] at hy
      rw [hg] at hg'
      cases hx
      cases hy
      cases hg'
      exact ⟨_, last, rfl, hl, by omega, add_lt_of_dvd (by omega) below zeros less, fewToo⟩

theorem round_quotient_le {num den most : Nat} (positive : 0 < den) (small : num ≤ most * den) :
    Binary64.roundQuotient num den ≤ most := by
  have split := Nat.div_add_mod num den
  have below : num / den ≤ most := Nat.div_le_of_le_mul (by rwa [Nat.mul_comm])
  rw [Binary64.roundQuotient]
  rcases Nat.lt_or_eq_of_le below with less | same
  · split_ifs <;> omega
  · have exact : num % den = 0 := by
      rw [same, Nat.mul_comm] at split
      omega
    rw [if_pos (by omega)]
    exact below

theorem two_to_pos (n : Nat) : 0 < Binary64.twoTo n := by
  rw [Binary64.twoTo, Nat.one_shiftLeft]
  positivity

def greatestFinite : Nat :=
  (Binary64.twoTo 53 - 1) * Binary64.twoTo 971

theorem log2_greatest_finite : greatestFinite.log2 = 1023 := by
  decide +kernel

theorem le_greatest_finite : 10 ^ 308 ≤ greatestFinite := by
  decide +kernel

/-- An integer that is not beyond the greatest finite number can be converted. -/
theorem of_int?_returns {n : Int} (small : n.natAbs ≤ greatestFinite) :
    ∃ x, Binary64.ofInt? n = some x := by
  unfold Binary64.ofInt? Binary64.ofRatio
  by_cases zero : n.natAbs = 0
  · simp [zero]
  have range : n.natAbs.log2 < 1024 := by
    have most := Nat.log_mono_right (b := 2) small
    rw [← Nat.log2_eq_log_two, ← Nat.log2_eq_log_two, log2_greatest_finite] at most
    omega
  have fits : Binary64.fittingExponent n.natAbs 1 ≤ Binary64.greatestExponent := by
    have one : Nat.log2 1 = 0 := by decide
    simp only [Binary64.fittingExponent, one, Binary64.leastExponent, Binary64.greatestExponent]
    split <;> omega
  -- at the greatest exponent the mantissa is not rounded up to the next one
  have top : Binary64.scaledQuotient n.natAbs 1 (Binary64.fittingExponent n.natAbs 1) =
      Binary64.twoTo 53 → Binary64.fittingExponent n.natAbs 1 < Binary64.greatestExponent := by
    intro full
    refine lt_of_le_of_ne fits fun greatest => ?_
    rw [greatest] at full
    have least : Binary64.roundQuotient n.natAbs (Binary64.twoTo 971) = Binary64.twoTo 53 := full
    have most := round_quotient_le (two_to_pos 971) small
    rw [least] at most
    exact absurd most (by decide)
  simp only [if_neg zero]
  split_ifs with full large large
  · have early := top full
    omega
  · exact ⟨_, rfl⟩
  · omega
  · exact ⟨_, rfl⟩

section Bounds

variable {rs : RuleSet Value} {readings : Readings} {text : Array Char} {start stop : Nat}

theorem NumberText.chain_small (only : NumberText text) (usual : readings.Usual) {ws : List Word}
    (chain : Chain readings text start ws stop) : ∀ w ∈ ws, w.Small := by
  have word : ∀ {pos stop w}, WordAt readings text pos w stop → w.Small := by
    intro pos stop w here
    obtain ⟨name, named⟩ := only.named usual here
    exact vocabulary_small _ named
  induction chain with
  | last here => exact List.forall_mem_singleton.mpr (word here)
  | cons here later ih => exact List.forall_mem_cons.mpr ⟨word here, ih⟩

/-- A number that such a text writes is an integer below a million millions. -/
theorem NumberText.bounded (only : NumberText text) (usual : readings.Usual) {n : NumberValue}
    (here : NumberAt readings text start stop n) :
    ∃ value, n.value = .int value ∧ value.natAbs < 10 ^ 12 := by
  induction here with
  | words chain reads =>
      obtain ⟨value, -, same, -, nonneg, below, -⟩ :=
        reads.bounded (only.chain_small usual chain)
      exact ⟨value, same, by omega⟩
  | literal opens => exact (only.not_literal opens).elim
  | negative sign inner ih =>
      obtain ⟨value, same, below⟩ := ih
      exact ⟨-value, by rw [same]; rfl, by omega⟩

/-- The English rules do not fail on a text of number words. -/
theorem NumberText.manageable (only : NumberText text) (usual : readings.Usual)
    (english : rs.rules = rulesWith readings) : Manageable rs text where
  words := only.look_ups_return
  directions := fun pos m found =>
    (only.not_starts direction_word_starts found (by decide) (by decide)).elim
  numbers := by
    intro node derives n value
    obtain ⟨start, stop, -, here⟩ := derives_tells english derives n value
    obtain ⟨i, same, below⟩ := only.bounded usual here
    have short : i.natAbs ≤ greatestFinite :=
      calc i.natAbs ≤ 10 ^ 12 := below.le
        _ ≤ 10 ^ 308 := pow_le_pow_right₀ (by decide) (by decide)
        _ ≤ greatestFinite := le_greatest_finite
    obtain ⟨x, known⟩ := of_int?_returns short
    exact ⟨x, by rw [same, Numeral.toFloat, known]⟩

end Bounds

end Reckon.English

import Reckon.Proofs.Binary64.Integers
import Reckon.Proofs.English.NamedWords
import Reckon.Proofs.Forest.Listed
import Reckon.Proofs.Text.Blanks

/-!
# Numbers in words

A number in words is an integer below a million millions, so it is a floating-point number as well.
Its grain is that of the word it ends with, and it is not less than any power of ten that is named
in its range. In a sum the second number is smaller than one unit of the word before it, and only a
power of ten alone can be multiplied by what stands before it.
-/

set_option autoImplicit false

namespace Reckon.English

open Forest
open Pattern hiding some

/-! What stands between words. -/

section Gaps

variable {text : Array Char} {pos place : Nat} {name : String}

theorem not_word_of_blank {c : Char} (here : text[place]? = some c)
    (blank : Text.isBlank c = true) : isWordAt text place = false := by
  rw [isWordAt, here]
  exact Text.not_word_of_trimmed (Text.is_trimmed_of_is_blank blank)

theorem not_word_in_blanks {fuel : Nat} (after : pos ≤ place)
    (before : place < Text.skipBlanks text fuel pos) : isWordAt text place = false := by
  induction fuel generalizing pos with
  | zero => exact absurd before (Nat.not_lt.mpr after)
  | succ fuel ih =>
      rw [Text.skipBlanks] at before
      split at before
      · rename_i c here
        split at before
        · rename_i blank
          rcases Nat.eq_or_lt_of_le after with rfl | later
          · exact not_word_of_blank here blank
          · exact ih later before
        · omega
      · omega

theorem not_word_in_gap (after : pos ≤ place) (before : place < Text.gapEnd text pos) :
    isWordAt text place = false := by
  rw [Text.gapEnd] at before
  by_cases early : place < Text.blanksFrom text pos
  · exact not_word_in_blanks after early
  · split_ifs at before with comma
    rcases Nat.eq_or_lt_of_le (Nat.not_lt.mp early) with rfl | later
    · rw [isWordAt, comma]
      decide
    · exact not_word_in_blanks later before
    · exact absurd before early

theorem is_word_at_of_stands (stands : StandsAt text place name) (plain : IsPlain name) :
    isWordAt text place = true :=
  stands.reads.is_word_at plain.2 (List.length_pos_iff.mpr plain.1)

theorem not_stands_inside {word : String} (outer : StandsAt text pos word) (plain : IsPlain word)
    (after : pos < place) (before : place < pos + word.toList.length) :
    ¬StandsAt text place name := by
  intro stands
  have closed := outer.reads.no_edge plain.2 place after before
  rw [stands.opens] at closed
  cases closed

theorem gap_end_le_of_word (letter : isWordAt text place = true) (after : pos ≤ place) :
    Text.gapEnd text pos ≤ place := by
  by_contra inside
  rw [not_word_in_gap after (by omega)] at letter
  cases letter

theorem joint_le_of_stands {m : Pattern.Match} (stands : StandsAt text place name)
    (plain : IsPlain name) (other : name ≠ "and") (after : pos ≤ place)
    (found : Numbers.joint.matchAt text pos = some m) : m.stop ≤ place := by
  have letter := is_word_at_of_stands stands plain
  have inside := stands.reads.inside plain.1
  rw [Numbers.joint, match_at_optional _ _ _ (by omega), match_at_alt, Option.or_eq_some_iff,
    Option.or_eq_some_iff] at found
  rcases found with (hyphen | ⟨-, word⟩) | ⟨-, nothing⟩
  · obtain ⟨c, here, accepted, rfl⟩ := (match_at_one _ _ _ _).mp hyphen
    rcases Nat.eq_or_lt_of_le after with rfl | later
    · rw [isWordAt, here, show c = '-' by simpa [CharClass.accepts] using accepted] at letter
      exact absurd letter (by decide)
    · exact later
  · obtain ⟨option, listed, standsToo, -, reached⟩ := match_at_whole_word word
    rw [List.mem_singleton.mp listed] at standsToo reached
    by_contra before
    rcases Nat.eq_or_lt_of_le after with rfl | later
    · exact other (stands.unique standsToo plain (by decide))
    · exact not_stands_inside standsToo (by decide) later (by omega) stands
  · cases nothing
    exact after

theorem onward_le_of_stands (stands : StandsAt text place name) (plain : IsPlain name)
    (other : name ≠ "and") (after : pos ≤ place) : onward text pos ≤ place := by
  have letter := is_word_at_of_stands stands plain
  have gap := gap_end_le_of_word letter after
  unfold onward
  split
  · rename_i m found
    split
    · exact gap_end_le_of_word letter (joint_le_of_stands stands plain other gap found)
    · exact gap
  · exact gap

end Gaps

/-! The words of a number. -/

section Chains

variable {readings : Readings} {text : Array Char} {start stop place : Nat} {ws : List Word}
  {w : Word} {n : NumberValue} {name : String}

theorem Chain.ends (chain : Chain readings text start ws stop) :
    ∃ w, ws.getLast? = some w ∧ ∃ place, start ≤ place ∧ WordAt readings text place w stop := by
  induction chain with
  | @last pos stop w here => exact ⟨w, rfl, pos, le_rfl, here⟩
  | @cons pos middle stop v ws here later ih =>
      obtain ⟨w, last, place, after, there⟩ := ih
      have first := here.range.1
      have gap := le_onward text middle
      refine ⟨w, ?_, place, by omega, there⟩
      rw [List.getLast?_cons, last]
      rfl

theorem Reads.grain_eq (reads : Reads ws n) :
    ∃ w, ws.getLast? = some w ∧ n.grain = some w.grain := by
  induction reads with
  | word w =>
      refine ⟨w, rfl, ?_⟩
      cases w <;> rfl
  | @scale ws vs a p n left right bare scaled ihLeft ihRight =>
      obtain ⟨w, last, grain⟩ := ihRight
      obtain ⟨factor, power, small, large, -, -, -, known, -, -, -, rfl⟩ :=
        (Numbers.scale_eq_some_iff _ _ _).mp scaled
      refine ⟨w, by rw [List.getLast?_append, last]; rfl, ?_⟩
      rw [← grain, known]
  | @join ws vs a b n left right whole joined ihLeft ihRight =>
      obtain ⟨w, last, grain⟩ := ihRight
      obtain ⟨x, y, g, -, -, -, -, -, -, -, rfl⟩ := (Numbers.join_eq_some_iff _ _ _).mp joined
      exact ⟨w, by rw [List.getLast?_append, last]; rfl, grain⟩

/-- A plain word other than "and" that stands in the range of a chain is one of its words. -/
theorem Chain.holds (chain : Chain readings text start ws stop) (stands : StandsAt text place name)
    (plain : IsPlain name) (other : name ≠ "and") (after : start ≤ place) (before : place < stop) :
    ∃ w ∈ ws, ∃ reached, WordAt readings text place w reached := by
  -- inside a word none stands, and neither does one between two words
  have here : ∀ {pos middle : Nat} {w : Word}, WordAt readings text pos w middle → pos ≤ place →
      place < middle → place = pos := by
    intro pos middle w here later inside
    obtain ⟨entry, belongs, word, listed, outer, reached⟩ := here.stands
    have plainWord := Numbers.lexicon_plain readings entry belongs word listed
    by_contra differs
    exact not_stands_inside outer plainWord (by omega) (by omega) stands
  induction chain with
  | @last pos stop w first =>
      obtain rfl := here first after before
      exact ⟨w, List.mem_singleton_self w, stop, first⟩
  | @cons pos middle stop w ws first later ih =>
      by_cases inside : place < middle
      · obtain rfl := here first after inside
        exact ⟨w, List.mem_cons_self, middle, first⟩
      · obtain ⟨v, member, found⟩ :=
          ih (onward_le_of_stands stands plain other (by omega)) before
        exact ⟨v, List.mem_cons_of_mem _ member, found⟩

theorem Chain.small (exact : readings.Exact) (chain : Chain readings text start ws stop) :
    ∀ w ∈ ws, w.Small := by
  have small : ∀ {pos middle : Nat} {w : Word}, WordAt readings text pos w middle → w.Small := by
    intro pos middle w here
    obtain ⟨name, named, -⟩ := (here.named exact).named
    exact vocabulary_small _ named
  induction chain with
  | last here => exact List.forall_mem_singleton.mpr (small here)
  | cons here later ih => exact List.forall_mem_cons.mpr ⟨small here, ih⟩

end Chains

/-! What is known of numbers in words. -/

/-- A range of the text ends with a listed number word. -/
structure EndsWith (text : Array Char) (start stop : Nat) (w : Word) : Prop where
  place : ∃ place, start ≤ place ∧ NamedAt text place w stop

/-- An integer in words over a range of a text. -/
structure InWords (text : Array Char) (start stop : Nat) (n : NumberValue) (value : Nat) :
    Prop where
  integer : n.value = .int value
  below : value < 10 ^ 12
  grain : ∃ w, EndsWith text start stop w ∧ n.grain = some w.grain
  powers : ∀ row ∈ powers, ∀ place, start ≤ place → StandsAt text place row.1 →
    place + row.1.toList.length ≤ stop → 10 ^ row.2 ≤ value
  exact : ∃ x, n.value.toFloat = .ok x ∧ x.IsExactly value

section Values

variable {readings : Readings} {text : Array Char} {start stop : Nat} {ws : List Word}
  {n : NumberValue}

theorem powers_listed : ∀ row ∈ powers, IsPlain row.1 ∧ row.1 ≠ "and" ∧
    ∃ large, (row.1, Word.power row.2 large) ∈ vocabulary := by
  simp only [powers, List.forall_mem_cons]
  exact ⟨⟨by decide, by decide, by decide, by decide⟩, ⟨by decide, by decide, by decide, by decide⟩,
    ⟨by decide, by decide, by decide, by decide⟩, ⟨by decide, by decide, by decide, by decide⟩,
    by simp⟩

theorem vocabulary_distinct : (vocabulary.map (·.1)).Nodup := by
  decide

theorem WordAt.eq_of_listed (exact : readings.Exact) {place reached : Nat} {v w : Word}
    {name : String} (here : WordAt readings text place v reached)
    (stands : StandsAt text place name) (listed : (name, w) ∈ vocabulary) : v = w := by
  obtain ⟨word, named, standsToo, -⟩ := (here.named exact).named
  have same := standsToo.unique stands (vocabulary_plain _ named) (vocabulary_plain _ listed)
  have row := List.inj_on_of_nodup_map vocabulary_distinct named listed same
  exact congrArg Prod.snd row

theorem ends_with_of_chain (exact : readings.Exact) (chain : Chain readings text start ws stop)
    (reads : Reads ws n) : ∃ w, EndsWith text start stop w ∧ n.grain = some w.grain := by
  obtain ⟨w, last, place, after, here⟩ := chain.ends
  obtain ⟨v, lastToo, grain⟩ := reads.grain_eq
  rw [last] at lastToo
  cases lastToo
  exact ⟨w, ⟨place, after, here.named exact⟩, grain⟩

theorem in_words_of_chain (exact : readings.Exact) (chain : Chain readings text start ws stop)
    (reads : Reads ws n) : ∃ value, InWords text start stop n value := by
  obtain ⟨value, grain, integer, -, nonneg, below, -⟩ := reads.bounded (chain.small exact)
  obtain ⟨_, _, again, -, amounts⟩ := reads.amounts
  rw [integer] at again
  cases again
  obtain ⟨v, rfl⟩ := Int.eq_ofNat_of_zero_le nonneg
  have small : v < 10 ^ 12 := by exact_mod_cast below
  obtain ⟨x, converted, exactly⟩ := Binary64.of_int?_exact (show v < 2 ^ 53 by omega)
  refine ⟨v, integer, small, ends_with_of_chain exact chain reads, ?_, x, ?_, exactly⟩
  · intro row listed place after stands before
    obtain ⟨plain, other, large, named⟩ := powers_listed row listed
    have length := List.length_pos_iff.mpr plain.1
    obtain ⟨w, member, reached, here⟩ := chain.holds stands plain other after (by omega)
    obtain rfl := here.eq_of_listed exact stands named
    exact_mod_cast amounts.bounded row.2 large member
  · rw [integer, Numeral.toFloat]
    simp only [converted]

theorem power_of_multipliable (exact : readings.Exact)
    (chain : Chain readings text start ws stop) (reads : Reads ws n)
    (bare : n.multipliable = true) : ∃ e large, NamedAt text start (.power e large) stop ∧
      n = (Word.power e large).number := by
  obtain ⟨e, large, rfl, same⟩ := reads.eq_power bare
  cases chain with
  | last here => exact ⟨e, large, here.named exact, same⟩
  | cons here later => cases later

end Values

/-! Sums. -/

structure SumFits (text : Array Char) (node : Node Value) : Prop where
  parts : ∃ left right a b w y, node.children = [left, right] ∧ left.value = .number a ∧
    right.value = .number b ∧ a.fromWords = true ∧ b.fromWords = true ∧
      (∃ start stop : Nat, left.chars = ⟨start, stop⟩ ∧ EndsWith text start stop w) ∧
      b.value = .int y ∧ 0 < y ∧ y < 10 ^ w.grain.toNat

section Sums

variable {rs : RuleSet Value} {readings : Readings} {text : Array Char} {node : Node Value}

def sumRule : Rule Value :=
  ⟨"number: sum", [Test.number Numbers.isWordNumber, .text Numbers.joint,
    Test.number Numbers.isWordNumber], Numbers.sum⟩

theorem spoken_of_derives (english : rs.rules = rulesWith readings) (derives : Derives rs text node)
    {n : NumberValue} (value : node.value = .number n)
    (marked : n.fromWords = true ∨ n.multipliable = true) :
    ∃ (start stop : Nat) (ws : List Word), node.chars = ⟨start, stop⟩ ∧
      Chain readings text start ws stop ∧ Reads ws n := by
  obtain ⟨start, stop, chars, here⟩ := derives_tells english derives n value
  obtain ⟨ws, chain, reads⟩ := here.spoken marked
  exact ⟨start, stop, ws, chars, chain, reads⟩

theorem rule_eq_of_name {r s : Rule Value} (left : r ∈ rulesWith readings)
    (right : s ∈ rulesWith readings) (same : r.name = s.name) : r = s :=
  List.inj_on_of_nodup_map (rules_with_distinct readings) left right same

theorem sum_fits_of_derives (exact : readings.Exact) (english : rs.rules = rulesWith readings)
    (derives : Derives rs text node) (sum : node.rule = "number: sum") : SumFits text node := by
  cases derives with
  | intro _ r member built parts =>
      rw [english] at member
      have listed : sumRule ∈ rulesWith readings := by
        simp [rulesWith, Numbers.rules, sumRule]
      obtain ⟨findings, ⟨start, stop, v, spread, ran, -, shape⟩, -⟩ := built
      obtain rfl : r = sumRule := by
        refine rule_eq_of_name member listed ?_
        rw [shape] at sum
        exact sum
      obtain ⟨left, right, m, begins, passed, -, -, passedToo, -, rfl, children⟩ :=
        spread_value_text_value_iff.mp spread
      obtain ⟨a, valueA, whole⟩ := holds_of .number (Except.ok.inj passed)
      obtain ⟨b, valueB, wholeToo⟩ := holds_of .number (Except.ok.inj passedToo)
      have words := from_words_of_is_word_number whole
      have wordsToo := from_words_of_is_word_number wholeToo
      obtain ⟨first, middle, ws, chars, chain, reads⟩ := spoken_of_derives english
        (parts left (by rw [children]; exact .head _)) valueA (.inl words)
      obtain ⟨-, -, vs, -, -, readsToo⟩ := spoken_of_derives english
        (parts right (by rw [children]; exact .tail _ (.head _))) valueB (.inl wordsToo)
      obtain ⟨w, ending, known⟩ := ends_with_of_chain exact chain reads
      rw [valueA, valueB] at ran
      obtain ⟨n, joined, -⟩ := Option.map_eq_some_iff.mp (Except.ok.inj ran)
      obtain ⟨x, y, g, -, integer, grain, -, -, positive, less, -⟩ :=
        (Numbers.join_eq_some_iff _ _ _).mp joined
      rw [known] at grain
      rw [readsToo.value_eq] at integer
      cases grain
      cases integer
      exact ⟨left, right, a, b, w, _, children, valueA, valueB, words, wordsToo,
        ⟨first, middle, chars, ending⟩, readsToo.value_eq, positive, less⟩

end Sums

/-- What is known of a node of a forest if it holds a number in words, or a sum of them. -/
structure NumberInvariant (text : Array Char) (node : Node Value) : Prop where
  words : ∀ n, node.value = .number n → n.fromWords = true → ∃ start stop value : Nat,
    node.chars = ⟨start, stop⟩ ∧ InWords text start stop n value
  factors : ∀ n, node.value = .number n → n.multipliable = true →
    ∃ (start stop k : Nat) (large : 2 ≤ k), node.chars = ⟨start, stop⟩ ∧
      NamedAt text start (.power k large) stop ∧ n = (Word.power k large).number
  sums : node.rule = "number: sum" → SumFits text node

/-- Numbers in words are integers below a million millions with the grain of their last word, not
less than any power of ten named in their range, and exact as floating-point numbers. Only a power
of ten alone can be multiplied, and what a sum adds is smaller than one unit of the word before. -/
theorem forest_numbers_in_words (readings : Readings) (exact : readings.Exact)
    (maxRounds maxNodes : Int) (text : Array Char) (entries : List (Entry Value))
    (notices : List Notice)
    (ran : RuleSet.apply { rules := rulesWith readings, maxRounds, maxNodes } text =
      .ok (entries, notices)) : ∀ e ∈ entries, NumberInvariant text e.node := by
  intro e member
  have derives := RuleSet.apply_sound ran e member
  refine ⟨fun n value words => ?_, fun n value bare => ?_, sum_fits_of_derives exact rfl derives⟩
  · obtain ⟨start, stop, ws, chars, chain, reads⟩ :=
      spoken_of_derives rfl derives value (.inl words)
    obtain ⟨amount, known⟩ := in_words_of_chain exact chain reads
    exact ⟨start, stop, amount, chars, known⟩
  · obtain ⟨start, stop, ws, chars, chain, reads⟩ :=
      spoken_of_derives rfl derives value (.inr bare)
    obtain ⟨k, large, named, same⟩ := power_of_multipliable exact chain reads bare
    exact ⟨start, stop, k, large, chars, named, same⟩

theorem hundred_and_six_in_words : usualReadings.Exact ∧ ∃ entries notices,
    (ruleSetWith usualReadings).apply "Hundred and six".toList.toArray = .ok (entries, notices) ∧
      (entries.filter fun e => e.node.chars = ⟨0, 15⟩ ∧ e.node.rule = "number: sum").length = 1 ∧
      ∀ e ∈ entries, NumberInvariant "Hundred and six".toList.toArray e.node := by
  have counted : ((ruleSetWith usualReadings).apply "Hundred and six".toList.toArray).toOption.map
      (fun found => (found.1.filter fun e =>
        e.node.chars = ⟨0, 15⟩ ∧ e.node.rule = "number: sum").length) = some 1 := by
    rw [RuleSet.apply_eq_listed]
    decide +kernel
  obtain ⟨⟨entries, notices⟩, ran, one⟩ := Sequencing.exists_ok_of_map counted
  exact ⟨usual_readings_exact, entries, notices, ran, one,
    forest_numbers_in_words usualReadings usual_readings_exact 16 4000 _ _ _ ran⟩

end Reckon.English

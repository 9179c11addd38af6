import Reckon.Proofs.Forest.Heights
import Reckon.Proofs.English.NumberTexts

/-!
# What the rules build of number words

Three ways to build a number in words: a word that stands in the text, a power of ten that scales a
factor before it, and a smaller number after one that ends in a power. Before a power there is a
space; a smaller number may follow a space or a hyphen.
-/

set_option autoImplicit false

namespace Reckon.English

open Forest
open Pattern hiding some

/-! Gaps. -/

section Gaps

variable {text : Array Char} {pos : Nat} {c : Char} {row : String × Word}

theorem gap_end_solid (here : text[pos]? = some c) (solid : Text.isBlank c = false)
    (plain : c ≠ ',') : Text.gapEnd text pos = pos := by
  simp [Text.gapEnd, blanks_from_solid here solid, here, plain]

theorem gap_end_blank (here : text[pos]? = some c) (blank : Text.isBlank c = true) :
    Text.gapEnd text pos = Text.gapEnd text (pos + 1) := by
  rw [Text.gapEnd, Text.gapEnd, blanks_from_blank here blank]

theorem NumberText.gap_end_word (only : NumberText text) (named : row ∈ vocabulary)
    (stands : StandsAt text pos row.1) : Text.gapEnd text pos = pos := by
  obtain ⟨c, here, -, letter⟩ := stands.opens_letter (vocabulary_plain row named)
  rcases only.letters c (Array.mem_of_getElem? here) with small | rfl | rfl
  · have code := to_nat_of_is_lower small
    apply gap_end_solid here
    · simp [Text.isBlank]
      omega
    · rintro rfl
      simp at code
  · exact absurd letter (by decide)
  · exact absurd letter (by decide)

theorem NumberText.gap_end_space (only : NumberText text) (space : text[pos]? = some ' ')
    (named : row ∈ vocabulary) (stands : StandsAt text (pos + 1) row.1) :
    Text.gapEnd text pos = pos + 1 := by
  rw [gap_end_blank space (by decide), only.gap_end_word named stands]

theorem NumberText.onward_word (only : NumberText text)
    (between : text[pos]? = some ' ' ∨ text[pos]? = some '-') (named : row ∈ vocabulary)
    (stands : StandsAt text (pos + 1) row.1) : onward text pos = pos + 1 := by
  rcases between with space | hyphen
  · have gap := only.gap_end_space space named stands
    have other : ∀ row ∈ vocabulary, row.1 ≠ "and" := by decide
    rw [onward_of_stands (by rwa [gap]) (vocabulary_plain row named) (other row named), gap]
  · have inside := (Array.getElem?_eq_some_iff.mp hyphen).1
    have still := gap_end_solid hyphen (by decide) (by decide)
    have sign : (char '-').matchAt text pos = some ⟨pos, pos + 1, ['-'], []⟩ :=
      (match_at_one _ _ _ _).mpr ⟨'-', hyphen, by decide, rfl⟩
    rw [onward, still, Numbers.joint, match_at_optional _ _ _ inside.le, match_at_alt, sign]
    simp [only.gap_end_word named stands]

theorem onward_joint (inside : pos ≤ text.size) : ∃ m : Match,
    Numbers.joint.matchAt text (Text.gapEnd text pos) = some m ∧
      onward text pos = Text.gapEnd text (if m.start < m.stop then m.stop else pos) := by
  have range := gap_end_range text pos
  cases found : Numbers.joint.matchAt text (Text.gapEnd text pos) with
  | none =>
      rw [Numbers.joint, match_at_optional _ _ _ (by omega), Option.or_eq_none_iff] at found
      cases found.2
  | some m => exact ⟨m, rfl, by rw [onward, found]⟩

end Gaps

/-! Nodes. -/

/-- A number in words as the rules hold it. -/
def inWords (value grain : Int) (bare : Bool) : NumberValue :=
  { value := .int value, grain := some grain, multipliable := bare, fromWords := true }

theorem is_word_number_in_words {value : Int} (nonneg : 0 ≤ value) (grain : Int) (bare : Bool) :
    Numbers.isWordNumber (inWords value grain bare) = true := by
  simp [Numbers.isWordNumber, inWords, Numeral.isInt, Numeral.int?, Numbers.isNonNegative,
    Numeral.le, nonneg]

/-- The rules build a number in words over a range that starts with a number word. -/
structure Spoken (rs : RuleSet Value) (text : Array Char) (start stop : Nat) (value grain : Int) :
    Prop where
  opens : ∃ row ∈ vocabulary, StandsAt text start row.1
  built : ∃ node bare, Derives rs text node ∧ node.chars = ⟨start, stop⟩ ∧
    node.value = .number (inWords value grain bare)

section Nodes

variable {rs : RuleSet Value} {readings : Readings} {text : Array Char}

theorem Spoken.lt {start stop : Nat} {value grain : Int}
    (spoken : Spoken rs text start stop value grain) : start < stop := by
  obtain ⟨node, -, derives, chars, -⟩ := spoken.built
  obtain ⟨first, last, covers⟩ := derives_covers derives
  have nonempty := covers.nonempty
  rw [covers.chars] at chars
  injection chars with starts stops
  omega

theorem numbers_listed (english : rs.rules = rulesWith readings) {r : Rule Value}
    (member : r ∈ Numbers.rules readings) : r ∈ rs.rules := by
  rw [english]
  simp only [rulesWith, List.mem_append]
  simp [member]

theorem lexicon_rule {entry : List String × (List (Finding Value) → Produced)}
    (belongs : entry ∈ Numbers.lexicon readings) :
    ∃ name, ⟨name, [.text (wholeWord entry.1)], entry.2⟩ ∈ Numbers.rules readings := by
  simp only [Numbers.lexicon, List.mem_cons, List.not_mem_nil, or_false] at belongs
  rcases belongs with rfl | rfl | rfl
  · exact ⟨_, .head _⟩
  · exact ⟨_, .tail _ (.head _)⟩
  · exact ⟨_, .tail _ (.tail _ (.head _))⟩

theorem lexicon_solid (readings : Readings) :
    ∀ entry ∈ Numbers.lexicon readings, (wholeWord entry.1).mayBeEmpty = false := by
  simp only [Numbers.lexicon, List.forall_mem_cons]
  exact ⟨by decide, by decide, by decide, by simp⟩

theorem NumberText.derives_word (only : NumberText text) (usual : readings.Usual)
    (english : rs.rules = rulesWith readings) {word : String} {w : Word} {pos : Nat}
    (named : (word, w) ∈ vocabulary) (stands : StandsAt text pos word) :
    ∃ node, Derives rs text node ∧ node.chars = ⟨pos, (pos + word.toList.length : Nat)⟩ ∧
      node.value = .number w.number := by
  obtain ⟨entry, belongs, listed, names⟩ := lexicon_names usual named
  obtain ⟨name, rule⟩ := lexicon_rule belongs
  have plain := Numbers.lexicon_plain readings entry belongs
  obtain ⟨m, found, start, stop⟩ := stands.mem_find_all listed plain
  obtain ⟨-, -, -, content⟩ := (find_all_finds found).way.range
  rw [start, stop, only.content stands.reads (plain word listed).2] at content
  have positive := List.length_pos_iff.mpr (plain word listed).1
  have solid := lexicon_solid readings entry belongs
  exact derives_of_spread (numbers_listed english rule) (by simp [Item.isSolid, solid])
    (spread_text_iff.mpr ⟨m, found, start, stop, rfl, rfl⟩) (names m content) (by omega) (by simp)

variable (only : NumberText text) (usual : readings.Usual)
  (english : rs.rules = rulesWith readings) {name : String} {w : Word}
  {start middle stop : Nat} {a b g h : Int}

include only usual english

theorem Spoken.word {value : Int} (named : (name, w) ∈ vocabulary)
    (known : w.number.value = .int value) (stands : StandsAt text start name) :
    Spoken rs text start (start + name.toList.length) value w.grain := by
  obtain ⟨node, derives, chars, held⟩ := only.derives_word usual english named stands
  refine ⟨⟨_, named, stands⟩, node, w.number.multipliable, derives, chars, ?_⟩
  rw [held, inWords, ← known]
  cases w <;> rfl

/-- A power of ten after a space scales a factor below a thousand. -/
theorem Spoken.scale (factor : Spoken rs text start middle a g) (least : 1 ≤ a) (most : a < 1000)
    {e : Nat} {large : 2 ≤ e} (less : g < e) (named : (name, .power e large) ∈ vocabulary)
    (space : text[middle]? = some ' ') (stands : StandsAt text (middle + 1) name) :
    Spoken rs text start (middle + 1 + name.toList.length) (a * 10 ^ e) e := by
  obtain ⟨left, bare, derives, chars, held⟩ := factor.built
  obtain ⟨right, derivesToo, charsToo, heldToo⟩ := only.derives_word usual english named stands
  have rule : ⟨"number: multiply",
      [Test.number Numbers.isWordNumber, Test.number (·.multipliable)], Numbers.multiply⟩ ∈
        Numbers.rules readings := by
    simp [Numbers.rules]
  have laid : Spread text [Test.number Numbers.isWordNumber, Test.number (·.multipliable)] start
      [.value left.value, .value right.value] [left, right] (middle + 1 + name.toList.length) := by
    refine spread_value_value_iff.mpr
      ⟨left, right, by rw [chars], ?_, ?_, ?_, by rw [charsToo, Int.toNat_natCast], rfl, rfl⟩
    · rw [held]
      exact congrArg Except.ok (is_word_number_in_words (by omega) g bare)
    · rw [charsToo, chars, Int.toNat_natCast, only.gap_end_space space named stands]
    · rw [heldToo]
      rfl
  have product : Numbers.scale (inWords a g bare) (Word.power e large).number =
      some (inWords (a * 10 ^ e) e false) := by
    refine (Numbers.scale_eq_some_iff _ _ _).mpr
      ⟨a, _, g, e, rfl, rfl, rfl, rfl, least, most, less, ?_⟩
    simp [inWords, Binary64.tenTo]
  have made : Numbers.multiply [.value left.value, .value right.value] =
      .ok (some (.number (inWords (a * 10 ^ e) e false))) := by
    rw [held, heldToo, Numbers.multiply, product]
    rfl
  have forward := factor.lt
  obtain ⟨node, built⟩ := derives_of_spread (numbers_listed english rule) rfl laid made (by omega)
    (by simp [derives, derivesToo])
  exact ⟨factor.opens, node, false, built⟩

omit usual in
theorem Spoken.join (larger : Spoken rs text start middle a g) (nonneg : 0 ≤ a) (least : 1 ≤ g)
    (zeros : a % 10 ^ g.toNat = 0) (between : text[middle]? = some ' ' ∨ text[middle]? = some '-')
    (smaller : Spoken rs text (middle + 1) stop b h) (positive : 0 < b) (less : b < 10 ^ g.toNat) :
    Spoken rs text start stop (a + b) h := by
  obtain ⟨left, bare, derives, chars, held⟩ := larger.built
  obtain ⟨right, bareToo, derivesToo, charsToo, heldToo⟩ := smaller.built
  obtain ⟨row, named, stands⟩ := smaller.opens
  have inside : middle ≤ text.size := by
    rcases between with here | here <;> exact (Array.getElem?_eq_some_iff.mp here).1.le
  obtain ⟨m, joint, place⟩ := onward_joint inside
  rw [only.onward_word between named stands] at place
  have rule : ⟨"number: sum",
      [Test.number Numbers.isWordNumber, .text Numbers.joint, Test.number Numbers.isWordNumber],
      Numbers.sum⟩ ∈ Numbers.rules readings := by
    simp [Numbers.rules]
  have laid : Spread text
      [Test.number Numbers.isWordNumber, .text Numbers.joint, Test.number Numbers.isWordNumber]
      start [.value left.value, .text m, .value right.value] [left, right] stop := by
    refine spread_value_text_value_iff.mpr ⟨left, right, m, by rw [chars], ?_, ?_, ?_, ?_,
      by rw [charsToo, Int.toNat_natCast], rfl, rfl⟩
    · rw [held]
      exact congrArg Except.ok (is_word_number_in_words nonneg g bare)
    · rw [chars, Int.toNat_natCast, joint]
    · rw [charsToo, chars, Int.toNat_natCast, ← place]
    · rw [heldToo]
      exact congrArg Except.ok (is_word_number_in_words positive.le h bareToo)
  have total : Numbers.join (inWords a g bare) (inWords b h bareToo) =
      some (inWords (a + b) h false) :=
    (Numbers.join_eq_some_iff _ _ _).mpr
      ⟨a, b, g, rfl, rfl, rfl, least, zeros, positive, less, rfl⟩
  have made : Numbers.sum [.value left.value, .text m, .value right.value] =
      .ok (some (.number (inWords (a + b) h false))) := by
    rw [held, heldToo, Numbers.sum, total]
    rfl
  have first := larger.lt
  have second := smaller.lt
  obtain ⟨node, built⟩ := derives_of_spread (numbers_listed english rule) rfl laid made (by omega)
    (by simp [derives, derivesToo])
  exact ⟨larger.opens, node, false, built⟩

end Nodes

end Reckon.English

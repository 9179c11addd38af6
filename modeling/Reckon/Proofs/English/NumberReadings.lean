import Mathlib
import Reckon.Proofs.English.Dimensions
import Reckon.Proofs.English.NumberChains
import Reckon.Proofs.Forest.Layouts
import Reckon.Proofs.Forest.Listed
import Reckon.Proofs.Pattern.Alphabet
import Reckon.Resolution

/-!
# One range, one number

A number in a forest is told by the range it covers. It is a literal, whose value is read off its
characters; or words, whose value is their tally; or a sign and a number after it. Which of the
three it is can be seen at its first character, and the rest follows from where it starts and ends.
So parses of one range by different rules and of different shapes agree in their value, and choosing
between them cannot change the number.
-/

set_option autoImplicit false

namespace Reckon.English

open Forest Sequencing
open Pattern hiding some

def literalValue (cs : List Char) : Numeral :=
  if '.' ∈ cs then .float (Numbers.readDecimal cs) else .int (Text.readNat cs)

/-- A number that the text writes from one place to another. -/
inductive NumberAt (readings : Readings) (text : Array Char) : Nat → Nat → NumberValue → Prop
  | words {start stop : Nat} {ws : List Word} {n : NumberValue}
      (chain : Chain readings text start ws stop) (reads : Reads ws n) :
      NumberAt readings text start stop n
  | literal {start stop : Nat}
      (opens : ∃ c, text[start]? = some c ∧ (Text.isDigit c = true ∨ c = '.')) :
      NumberAt readings text start stop { value := literalValue (charsBetween text start stop) }
  | negative {start stop : Nat} {m : Match} {a : NumberValue}
      (sign : Numbers.minus.matchAt text start = some m)
      (inner : NumberAt readings text (Text.gapEnd text m.stop) stop a) :
      NumberAt readings text start stop { value := a.value.neg }

/-! How a number starts. -/

section Starts

variable {readings : Readings} {text : Array Char} {pos stop : Nat} {w : Word} {m : Match}

theorem match_at_minus (sign : Numbers.minus.matchAt text pos = some m) :
    text[pos]? = some '-' ∨ StandsAt text pos "minus" ∨ StandsAt text pos "negative" := by
  simp only [Numbers.minus, anyOf, match_at_alt, Option.or_eq_some_iff] at sign
  rcases sign with hyphen | ⟨-, minus | ⟨-, negative⟩⟩
  · obtain ⟨c, here, cls, member, accepted⟩ :=
      (matches_at_of_match_at hyphen).opens ((matches_at_of_match_at hyphen).covers (by decide))
    rw [show openings (.seq (.notBehind [.word]) (.char '-')) = [.exactly '-'] from rfl] at member
    rw [List.mem_singleton.mp member] at accepted
    left
    simpa [CharClass.accepts, here] using accepted
  · obtain ⟨word, listed, stands, -⟩ := match_at_whole_word minus
    rw [List.mem_singleton.mp listed] at stands
    exact .inr (.inl stands)
  · obtain ⟨word, listed, stands, -⟩ := match_at_whole_word negative
    rw [List.mem_singleton.mp listed] at stands
    exact .inr (.inr stands)

/-- A literal does not start where a plain word stands. -/
theorem not_literal_of_stands {word : String} (stands : StandsAt text pos word)
    (plain : IsPlain word)
    (opens : ∃ c, text[pos]? = some c ∧ (Text.isDigit c = true ∨ c = '.')) : False := by
  obtain ⟨c, found, notDigit, letter⟩ := stands.opens_letter plain
  obtain ⟨d, again, literal⟩ := opens
  rw [found] at again
  cases again
  rcases literal with digit | point
  · rw [notDigit] at digit
    cases digit
  · rw [point] at letter
    revert letter
    decide

theorem not_literal_of_word (here : WordAt readings text pos w stop)
    (opens : ∃ c, text[pos]? = some c ∧ (Text.isDigit c = true ∨ c = '.')) : False := by
  obtain ⟨entry, belongs, word, member, stands, -⟩ := here.stands
  exact not_literal_of_stands stands (Numbers.lexicon_plain readings entry belongs word member)
    opens

theorem not_sign_of_word (here : WordAt readings text pos w stop)
    (sign : Numbers.minus.matchAt text pos = some m) : False := by
  obtain ⟨entry, belongs, word, member, stands, -⟩ := here.stands
  have plain := Numbers.lexicon_plain readings entry belongs word member
  have apart : ∀ entry ∈ Numbers.lexicon readings, ∀ word ∈ entry.1,
      word ≠ "minus" ∧ word ≠ "negative" := by
    simp only [Numbers.lexicon, List.forall_mem_cons]
    exact ⟨by decide, by decide, by decide, by simp⟩
  obtain ⟨notMinus, notNegative⟩ := apart entry belongs word member
  rcases match_at_minus sign with hyphen | minus | negative
  · obtain ⟨c, found, -, letter⟩ := stands.opens_letter plain
    rw [hyphen] at found
    cases found
    revert letter
    decide
  · exact notMinus (stands.unique minus plain (by decide))
  · exact notNegative (stands.unique negative plain (by decide))

theorem not_sign_of_literal
    (opens : ∃ c, text[pos]? = some c ∧ (Text.isDigit c = true ∨ c = '.'))
    (sign : Numbers.minus.matchAt text pos = some m) : False := by
  rcases match_at_minus sign with hyphen | minus | negative
  · obtain ⟨c, found, literal⟩ := opens
    rw [hyphen] at found
    cases found
    revert literal
    decide
  · exact not_literal_of_stands minus (by decide) opens
  · exact not_literal_of_stands negative (by decide) opens

end Starts

/-- A number that the text writes from one place to another has one value. -/
theorem NumberAt.unique {readings : Readings} {text : Array Char} {start stop : Nat}
    {a b : NumberValue} (left : NumberAt readings text start stop a)
    (right : NumberAt readings text start stop b) : a.value = b.value := by
  induction left generalizing b with
  | words chain reads =>
      obtain ⟨w, reached, here⟩ := chain.opens
      cases right with
      | words chainToo readsToo =>
          have same := chain.unique chainToo
          subst same
          rw [reads.value_eq, readsToo.value_eq]
      | literal opens => exact (not_literal_of_word here opens).elim
      | negative sign => exact (not_sign_of_word here sign).elim
  | literal opens =>
      cases right with
      | words chain reads =>
          obtain ⟨w, reached, here⟩ := chain.opens
          exact (not_literal_of_word here opens).elim
      | literal opensToo => rfl
      | negative sign => exact (not_sign_of_literal opens sign).elim
  | negative sign inner ih =>
      cases right with
      | words chain reads =>
          obtain ⟨w, reached, here⟩ := chain.opens
          exact (not_sign_of_word here sign).elim
      | literal opens => exact (not_sign_of_literal opens sign).elim
      | negative signToo innerToo =>
          rw [sign] at signToo
          cases signToo
          rw [ih innerToo]

/-! What the rules for numbers build. -/

/-- A node that holds a number stands for a number that the text writes over its range. -/
def Tells (readings : Readings) (text : Array Char) (node : Node Value) : Prop :=
  ∀ n, node.value = .number n → ∃ start stop : Nat, node.chars = ⟨start, stop⟩ ∧
    NumberAt readings text start stop n

section Productions

variable {readings : Readings} {text : Array Char} {p : Pattern} {pos start stop : Nat} {m : Match}
  {n : NumberValue}

theorem number_at_word {words : List String} {produce : List (Finding Value) → Produced}
    (belongs : (words, produce) ∈ Numbers.lexicon readings)
    (found : (wholeWord words).matchAt text start = some m)
    (ran : produce [.text m] = .ok (some (.number n))) :
    NumberAt readings text start m.stop n := by
  obtain ⟨w, rfl⟩ := Numbers.lexicon_number belongs ran
  exact .words (.last ⟨_, belongs, m, found, rfl, ran⟩) (.word w)

theorem number_at_digits (found : p.matchAt text start = some m) (solid : p.mayBeEmpty = false)
    (opens : p.openings = [.digit]) (pointless : ∀ cls ∈ p.alphabet, cls.accepts '.' = false)
    (ran : Numbers.digits [.text m] = .ok (some (.number n))) :
    NumberAt readings text start m.stop n := by
  obtain ⟨begins, -, -, content⟩ := match_at_range text p start m found
  have way := matches_at_of_match_at found
  obtain ⟨c, here, cls, member, accepted⟩ := way.opens (way.covers solid)
  rw [opens, List.mem_singleton] at member
  subst member
  have noPoint : '.' ∉ m.content := by
    intro inside
    obtain ⟨cls, belongs, accepted⟩ := way.spells.within '.' inside
    rw [pointless cls belongs] at accepted
    cases accepted
  obtain ⟨i, read, made⟩ := (bind_ok_iff _ _ _).mp ran
  have value : i = Text.readNat m.content := by
    unfold readInteger at read
    split at read
    · cases read
    · exact (Except.ok.inj read).symm
  have literal : literalValue (charsBetween text start m.stop) = .int i := by
    rw [← begins, ← content, literalValue, if_neg noPoint, value]
  cases made
  rw [← literal]
  exact .literal ⟨c, here, .inl accepted⟩

theorem spells_point {cs : List Char} (spells : Spells Numbers.decimalDigits cs) : '.' ∈ cs := by
  unfold Numbers.decimalDigits at spells
  cases spells with
  | seq fresh rest =>
      cases rest with
      | seq digits rest =>
          cases rest with
          | seq point rest =>
              cases point with
              | one accepted =>
                  simp only [CharClass.accepts, beq_iff_eq] at accepted
                  simp [accepted]

theorem number_at_decimal (found : Numbers.decimalDigits.matchAt text start = some m)
    (ran : Numbers.decimal [.text m] = .ok (some (.number n))) :
    NumberAt readings text start m.stop n := by
  obtain ⟨begins, -, -, content⟩ := match_at_range text _ start m found
  have way := matches_at_of_match_at found
  obtain ⟨c, here, cls, member, accepted⟩ := way.opens (way.covers rfl)
  have literal : literalValue (charsBetween text start m.stop) =
      .float (Numbers.readDecimal m.content) := by
    rw [← begins, ← content, literalValue, if_pos (spells_point way.spells)]
  rw [show Numbers.decimalDigits.openings = [.digit, .exactly '.'] from rfl] at member
  cases ran
  rw [← literal]
  refine .literal ⟨c, here, ?_⟩
  simp only [List.mem_cons, List.not_mem_nil, or_false] at member
  rcases member with rfl | rfl
  · exact .inl accepted
  · exact .inr (by simpa [CharClass.accepts] using accepted)

theorem number_at_negate {a : NumberValue} (sign : Numbers.minus.matchAt text start = some m)
    (inner : NumberAt readings text (Text.gapEnd text m.stop) stop a)
    (ran : Numbers.negate [.text m, .value (.number a)] = .ok (some (.number n))) :
    NumberAt readings text start stop n := by
  simp only [Numbers.negate] at ran
  split at ran
  · cases ran
  · cases ran
    exact .negative sign inner

/-- A number marked as one in words, or as a power of ten, is written in words. -/
theorem NumberAt.spoken (here : NumberAt readings text start stop n)
    (marked : n.fromWords = true ∨ n.multipliable = true) :
    ∃ ws, Chain readings text start ws stop ∧ Reads ws n := by
  cases here with
  | words chain reads => exact ⟨_, chain, reads⟩
  | literal opens => simp at marked
  | negative sign inner => simp at marked

theorem from_words_of_is_word_number (whole : Numbers.isWordNumber n = true) :
    n.fromWords = true := by
  simp only [Numbers.isWordNumber, Bool.and_eq_true] at whole
  exact whole.1.1

theorem number_at_multiply {a q : NumberValue} {middle : Nat}
    (left : NumberAt readings text start middle a) (whole : Numbers.isWordNumber a = true)
    (right : NumberAt readings text (Text.gapEnd text middle) stop q) (bare : q.multipliable = true)
    (ran : Numbers.multiply [.value (.number a), .value (.number q)] = .ok (some (.number n))) :
    NumberAt readings text start stop n := by
  obtain ⟨product, scaled, same⟩ := Option.map_eq_some_iff.mp (Except.ok.inj ran)
  cases same
  obtain ⟨ws, chain, reads⟩ := left.spoken (.inl (from_words_of_is_word_number whole))
  obtain ⟨vs, others, readsToo⟩ := right.spoken (.inr bare)
  obtain ⟨w, reached, here⟩ := others.opens
  rw [← onward_of_word here] at others
  exact .words (chain.append others) (.scale reads readsToo bare scaled)

theorem number_at_sum {a b : NumberValue} {middle : Nat}
    (left : NumberAt readings text start middle a) (whole : Numbers.isWordNumber a = true)
    (between : Numbers.joint.matchAt text (Text.gapEnd text middle) = some m)
    (right : NumberAt readings text
      (Text.gapEnd text (if m.start < m.stop then m.stop else middle)) stop b)
    (wholeToo : Numbers.isWordNumber b = true)
    (ran : Numbers.sum [.value (.number a), .text m, .value (.number b)] =
      .ok (some (.number n))) :
    NumberAt readings text start stop n := by
  obtain ⟨total, joined, same⟩ := Option.map_eq_some_iff.mp (Except.ok.inj ran)
  cases same
  obtain ⟨ws, chain, reads⟩ := left.spoken (.inl (from_words_of_is_word_number whole))
  obtain ⟨vs, others, readsToo⟩ := right.spoken (.inl (from_words_of_is_word_number wholeToo))
  have place : onward text middle =
      Text.gapEnd text (if m.start < m.stop then m.stop else middle) := by
    rw [onward, between]
  rw [← place] at others
  exact .words (chain.append others) (.join reads readsToo whole joined)

end Productions

/-! Forests. -/

section Forests

variable {rs : RuleSet Value} {readings : Readings} {text : Array Char} {node : Node Value}

theorem number_at_of_spread {r : Rule Value} (member : r ∈ Numbers.rules readings)
    {start stop : Nat} {findings : List (Finding Value)} {children : List (Node Value)}
    (spread : Spread text r.items start findings children stop)
    (tell : ∀ child ∈ children, Tells readings text child) {n : NumberValue}
    (ran : r.produce findings = .ok (some (.number n))) :
    NumberAt readings text start stop n := by
  simp only [Numbers.rules, List.mem_cons, List.not_mem_nil, or_false] at member
  rcases member with rfl | rfl | rfl | rfl | rfl | rfl | rfl | rfl | rfl
  · obtain ⟨m, found, rfl, rfl, rfl, -⟩ := spread_text_iff.mp spread
    exact number_at_word (.head _) (match_at_of_mem_find_all found (by decide)) ran
  · obtain ⟨m, found, rfl, rfl, rfl, -⟩ := spread_text_iff.mp spread
    exact number_at_word (.tail _ (.head _)) (match_at_of_mem_find_all found (by decide)) ran
  · obtain ⟨m, found, rfl, rfl, rfl, -⟩ := spread_text_iff.mp spread
    exact number_at_word (.tail _ (.tail _ (.head _)))
        (match_at_of_mem_find_all found (by decide)) ran
  · obtain ⟨m, found, rfl, rfl, rfl, -⟩ := spread_text_iff.mp spread
    exact number_at_digits (match_at_of_mem_find_all found (by decide)) rfl rfl (by decide) ran
  · obtain ⟨m, found, rfl, rfl, rfl, -⟩ := spread_text_iff.mp spread
    exact number_at_digits (match_at_of_mem_find_all found (by decide)) rfl rfl (by decide) ran
  · obtain ⟨m, found, rfl, rfl, rfl, -⟩ := spread_text_iff.mp spread
    exact number_at_decimal (match_at_of_mem_find_all found (by decide)) ran
  · obtain ⟨m, found, child, rfl, place, passed, rfl, rfl, rfl⟩ := spread_text_value_iff.mp spread
    obtain ⟨a, value, -⟩ := holds_of .number (Except.ok.inj passed)
    obtain ⟨first, last, chars, inner⟩ := tell child List.mem_cons_self a value
    rw [chars] at place ⊢
    rw [value] at ran
    cases Int.ofNat.inj place
    exact number_at_negate (match_at_of_mem_find_all found (by decide)) inner ran
  · obtain ⟨left, right, begins, passed, place, passedToo, rfl, rfl, rfl⟩ :=
      spread_value_value_iff.mp spread
    obtain ⟨a, valueA, whole⟩ := holds_of .number (Except.ok.inj passed)
    obtain ⟨b, valueB, bare⟩ := holds_of .number (Except.ok.inj passedToo)
    obtain ⟨_, middle, charsA, first⟩ := tell left List.mem_cons_self a valueA
    obtain ⟨_, last, charsB, second⟩ := tell right (.tail _ (.head _)) b valueB
    rw [charsA] at begins place
    rw [charsB] at place ⊢
    rw [valueA, valueB] at ran
    cases Int.ofNat.inj begins
    cases Int.ofNat.inj place
    exact number_at_multiply first whole second bare ran
  · obtain ⟨left, right, m, begins, passed, between, place, passedToo, rfl, rfl, rfl⟩ :=
      spread_value_text_value_iff.mp spread
    obtain ⟨a, valueA, whole⟩ := holds_of .number (Except.ok.inj passed)
    obtain ⟨b, valueB, wholeToo⟩ := holds_of .number (Except.ok.inj passedToo)
    obtain ⟨_, middle, charsA, first⟩ := tell left List.mem_cons_self a valueA
    obtain ⟨_, last, charsB, second⟩ := tell right (.tail _ (.head _)) b valueB
    rw [charsA] at begins between place
    rw [charsB] at place ⊢
    rw [valueA, valueB] at ran
    cases Int.ofNat.inj begins
    cases Int.ofNat.inj place
    exact number_at_sum first whole between second wholeToo ran

/-- Every node that holds a number stands for one that the text writes over its range. -/
theorem derives_tells (english : rs.rules = rulesWith readings)
    (derives : Derives rs text node) : Tells readings text node := by
  induction derives with
  | intro node r member built parts ih =>
      intro n value
      rw [english] at member
      have number := builds_number member built (by rw [value]; rfl)
      obtain ⟨findings, ⟨start, stop, v, spread, ran, -, shape⟩, -⟩ := built
      have chars : node.chars = ⟨start, stop⟩ := by rw [shape]; rfl
      have same : v = .number n := by
        rw [shape] at value
        exact value
      subst same
      exact ⟨start, stop, chars, number_at_of_spread number spread ih ran⟩

/-- Numbers over one range have one value. -/
theorem derives_number_unique (english : rs.rules = rulesWith readings) {other : Node Value}
    (left : Derives rs text node) (right : Derives rs text other) {m n : NumberValue}
    (first : node.value = .number m) (second : other.value = .number n)
    (same : node.chars = other.chars) : m.value = n.value := by
  obtain ⟨start, stop, chars, numberM⟩ := derives_tells english left m first
  obtain ⟨_, _, charsToo, numberN⟩ := derives_tells english right n second
  rw [chars, charsToo] at same
  injection same with starts stops
  cases Int.ofNat.inj starts
  cases Int.ofNat.inj stops
  exact numberM.unique numberN

end Forests

/-- Numbers in a forest that cover the same characters are equal, whatever rules and trees built
them, and so resolve to the same output. -/
theorem forest_numbers_agree (readings : Readings) (maxRounds maxNodes : Int) (text : Array Char)
    (entries : List (Entry Value)) (notices : List Notice)
    (ran : RuleSet.apply { rules := rulesWith readings, maxRounds, maxNodes } text =
      .ok (entries, notices)) :
    ∀ d ∈ entries, ∀ e ∈ entries, ∀ m n, d.node.value = .number m → e.node.value = .number n →
      d.node.chars = e.node.chars → m.value = n.value ∧ ∀ kind context,
        d.node.value.resolve kind context = e.node.value.resolve kind context := by
  intro d left e right m n first second same
  have values := derives_number_unique rfl (RuleSet.apply_sound ran d left)
    (RuleSet.apply_sound ran e right) first second same
  refine ⟨values, fun kind context => ?_⟩
  have read : (Value.number m).read context = (Value.number n).read context :=
    congrArg Value.resolveNumber values
  rw [first, second, Value.resolve, Value.resolve, read]
  rfl

/-- The sum of three words can be bracketed in two ways. -/
theorem hundred_ten_one_agree : ∃ entries notices,
    (ruleSetWith usualReadings).apply "hundred ten one".toList.toArray = .ok (entries, notices) ∧
      (entries.filter fun e => e.node.chars = ⟨0, 15⟩ ∧
        e.node.value.dimension? = some .number).length = 2 ∧
      ∀ d ∈ entries, ∀ e ∈ entries, ∀ m n, d.node.value = .number m → e.node.value = .number n →
        d.node.chars = e.node.chars → m.value = n.value ∧ ∀ kind context,
          d.node.value.resolve kind context = e.node.value.resolve kind context := by
  have counted : ((ruleSetWith usualReadings).apply "hundred ten one".toList.toArray).toOption.map
      (fun found => (found.1.filter fun e =>
        e.node.chars = ⟨0, 15⟩ ∧ e.node.value.dimension? = some .number).length) = some 2 := by
    rw [RuleSet.apply_eq_listed]
    decide +kernel
  obtain ⟨⟨entries, notices⟩, ran, two⟩ := exists_ok_of_map counted
  exact ⟨entries, notices, ran, two, forest_numbers_agree usualReadings 16 4000 _ _ _ ran⟩

end Reckon.English

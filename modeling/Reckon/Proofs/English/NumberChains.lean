import Reckon.Proofs.English.Findings
import Reckon.Proofs.English.WordNumbers
import Reckon.Proofs.Pattern.WholeWords

/-!
# Number words in a text

Where number words follow one another in a text. A word is told by the place it stands at, and so
is the place where a next word has to begin: after a gap, or after a hyphen or "and" between two
gaps. So the words between two places of a text are determined by the places.
-/

set_option autoImplicit false

namespace Reckon.English

open Forest
open Pattern hiding some

/-! Single words. -/

namespace Numbers

def lexicon (readings : Readings) :
    List (List String × (List (Finding Value) → Produced)) :=
  [("zero" :: units.map (·.1), unit readings), (tens.map (·.1), ten readings),
    (powers.map (·.1), power)]

theorem lexicon_plain (readings : Readings) :
    ∀ entry ∈ lexicon readings, ∀ word ∈ entry.1, IsPlain word := by
  simp only [lexicon, List.forall_mem_cons]
  exact ⟨by decide, by decide, by decide, by simp⟩

theorem lexicon_apart {readings : Readings}
    {first second : List String × (List (Finding Value) → Produced)}
    (left : first ∈ lexicon readings) (right : second ∈ lexicon readings) {word : String}
    (inFirst : word ∈ first.1) (inSecond : word ∈ second.1) : first = second := by
  have unitTen : ∀ w ∈ "zero" :: units.map (·.1), w ∉ tens.map (·.1) := by decide
  have unitPower : ∀ w ∈ "zero" :: units.map (·.1), w ∉ powers.map (·.1) := by decide
  have tenPower : ∀ w ∈ tens.map (·.1), w ∉ powers.map (·.1) := by decide
  simp only [lexicon, List.mem_cons, List.not_mem_nil, or_false] at left right
  rcases left with rfl | rfl | rfl <;> rcases right with rfl | rfl | rfl
  · rfl
  · exact absurd inSecond (unitTen word inFirst)
  · exact absurd inSecond (unitPower word inFirst)
  · exact absurd inFirst (unitTen word inSecond)
  · rfl
  · exact absurd inSecond (tenPower word inFirst)
  · exact absurd inFirst (unitPower word inSecond)
  · exact absurd inFirst (tenPower word inSecond)
  · rfl

/-- What the rule of a list makes of a word is a number word. -/
theorem lexicon_number {readings : Readings}
    {entry : List String × (List (Finding Value) → Produced)} (belongs : entry ∈ lexicon readings)
    {m : Match} {n : NumberValue} (ran : entry.2 [.text m] = .ok (some (.number n))) :
    ∃ w : Word, n = w.number := by
  simp only [lexicon, List.mem_cons, List.not_mem_nil, or_false] at belongs
  rcases belongs with rfl | rfl | rfl
  · simp only [unit] at ran
    split at ran
    · cases ran
      exact ⟨.plain 0 false, rfl⟩
    · split at ran
      · rename_i k known
        cases ran
        exact ⟨.plain k (10 ≤ k), by simp [Word.number, Word.grain]⟩
      · cases ran
  · simp only [ten] at ran
    split at ran
    · rename_i k known
      cases ran
      exact ⟨.plain k true, rfl⟩
    · cases ran
  · obtain ⟨e, listed, made⟩ := (Sequencing.bind_ok_iff _ _ _).mp ran
    obtain ⟨name, member⟩ := mem_of_entry_of listed
    have large : ∀ row ∈ powers, 2 ≤ row.2 := by decide
    cases made
    exact ⟨.power e (large _ member), rfl⟩

end Numbers

/-- A number word of which the text reads one of the listed words at a place. -/
structure WordAt (readings : Readings) (text : Array Char) (pos : Nat) (w : Word) (stop : Nat) :
    Prop where
  listed : ∃ entry ∈ Numbers.lexicon readings, ∃ m,
    (wholeWord entry.1).matchAt text pos = some m ∧ m.stop = stop ∧
      entry.2 [.text m] = .ok (some (.number w.number))

section Words

variable {readings : Readings} {text : Array Char} {pos stop other : Nat} {v w : Word}

theorem WordAt.stands (here : WordAt readings text pos w stop) :
    ∃ entry ∈ Numbers.lexicon readings, ∃ word ∈ entry.1, StandsAt text pos word ∧
      stop = pos + word.toList.length := by
  obtain ⟨entry, belongs, m, found, same, -⟩ := here.listed
  obtain ⟨word, member, stands, -, reached⟩ := match_at_whole_word found
  exact ⟨entry, belongs, word, member, stands, by omega⟩

/-- A place tells the word that stands there. -/
theorem WordAt.unique (here : WordAt readings text pos v stop)
    (again : WordAt readings text pos w other) : v = w ∧ stop = other := by
  obtain ⟨first, left, m, foundM, stopM, madeM⟩ := here.listed
  obtain ⟨second, right, n, foundN, stopN, madeN⟩ := again.listed
  obtain ⟨a, inFirst, standsA, -, -⟩ := match_at_whole_word foundM
  obtain ⟨b, inSecond, standsB, -, -⟩ := match_at_whole_word foundN
  have same : a = b := standsA.unique standsB
    (Numbers.lexicon_plain readings first left a inFirst)
    (Numbers.lexicon_plain readings second right b inSecond)
  subst same
  have alike := Numbers.lexicon_apart left right inFirst inSecond
  subst alike
  rw [foundM] at foundN
  cases foundN
  rw [madeM] at madeN
  refine ⟨Word.number_injective ?_, by omega⟩
  injection madeN with value
  injection value with number
  injection number

theorem WordAt.range (here : WordAt readings text pos w stop) : pos < stop ∧ pos < text.size := by
  obtain ⟨entry, belongs, word, member, stands, reached⟩ := here.stands
  have plain := Numbers.lexicon_plain readings entry belongs word member
  have positive := List.length_pos_iff.mpr plain.1
  exact ⟨by omega, stands.reads.inside plain.1⟩

end Words

/-! From word to word. -/

/-- Where the next word of a number begins: after a gap, or after a joint between two gaps. -/
def onward (text : Array Char) (pos : Nat) : Nat :=
  match Numbers.joint.matchAt text (Text.gapEnd text pos) with
  | some m => Text.gapEnd text (if m.start < m.stop then m.stop else pos)
  | none => Text.gapEnd text pos

theorem le_onward (text : Array Char) (pos : Nat) : pos ≤ onward text pos := by
  have gap := gap_end_range text pos
  unfold onward
  split
  · rename_i m found
    have range := match_at_range text _ _ m found
    split
    · have later := gap_end_range text m.stop
      omega
    · exact gap.1
  · exact gap.1

/-- Where a plain word other than "and" stands after a gap, no joint comes before it. -/
theorem onward_of_stands {text : Array Char} {pos : Nat} {word : String}
    (stands : StandsAt text (Text.gapEnd text pos) word) (plain : IsPlain word)
    (other : word ≠ "and") : onward text pos = Text.gapEnd text pos := by
  have inside := stands.reads.inside plain.1
  have noHyphen : (char '-').matchAt text (Text.gapEnd text pos) = none := by
    rw [Option.eq_none_iff_forall_ne_some]
    intro m found
    obtain ⟨c, here, accepted, -⟩ := (match_at_one _ _ _ _).mp found
    have hyphen : c = '-' := by simpa [CharClass.accepts] using accepted
    have letter := stands.reads.is_word_at plain.2 (List.length_pos_iff.mpr plain.1)
    rw [Nat.add_zero, isWordAt, here, hyphen] at letter
    revert letter
    decide
  have noAnd : (wholeWord ["and"]).matchAt text (Text.gapEnd text pos) = none := by
    rw [Option.eq_none_iff_forall_ne_some]
    intro m found
    obtain ⟨a, listed, standsToo, -, -⟩ := match_at_whole_word found
    rw [List.mem_singleton.mp listed] at standsToo
    exact other (stands.unique standsToo plain (by decide))
  unfold onward Numbers.joint
  rw [match_at_optional _ _ _ inside.le, match_at_alt, noHyphen, noAnd]
  simp

theorem onward_of_word {readings : Readings} {text : Array Char} {pos stop : Nat} {w : Word}
    (here : WordAt readings text (Text.gapEnd text pos) w stop) :
    onward text pos = Text.gapEnd text pos := by
  obtain ⟨entry, belongs, word, member, stands, -⟩ := here.stands
  refine onward_of_stands stands (Numbers.lexicon_plain readings entry belongs word member) ?_
  have none : ∀ entry ∈ Numbers.lexicon readings, ∀ word ∈ entry.1, word ≠ "and" := by
    simp only [Numbers.lexicon, List.forall_mem_cons]
    exact ⟨by decide, by decide, by decide, by simp⟩
  exact none entry belongs word member

/-- Number words that follow one another from one place to another. -/
inductive Chain (readings : Readings) (text : Array Char) : Nat → List Word → Nat → Prop
  | last {pos stop : Nat} {w : Word} (here : WordAt readings text pos w stop) :
      Chain readings text pos [w] stop
  | cons {pos middle stop : Nat} {w : Word} {ws : List Word}
      (here : WordAt readings text pos w middle)
      (later : Chain readings text (onward text middle) ws stop) :
      Chain readings text pos (w :: ws) stop

section Chains

variable {readings : Readings} {text : Array Char} {start middle stop : Nat} {ws vs : List Word}

theorem Chain.opens (chain : Chain readings text start ws stop) :
    ∃ w reached, WordAt readings text start w reached := by
  cases chain with
  | last here => exact ⟨_, _, here⟩
  | cons here later => exact ⟨_, _, here⟩

theorem Chain.lt (chain : Chain readings text start ws stop) : start < stop := by
  induction chain with
  | last here => exact here.range.1
  | @cons pos middle stop w ws here later ih =>
      have first := here.range.1
      have gap := le_onward text middle
      omega

theorem Chain.append (chain : Chain readings text start ws middle)
    (others : Chain readings text (onward text middle) vs stop) :
    Chain readings text start (ws ++ vs) stop := by
  induction chain with
  | last here => exact .cons here others
  | cons here later ih => exact .cons here (ih others)

/-- The words between two places are determined by the places. -/
theorem Chain.unique (chain : Chain readings text start ws stop)
    (again : Chain readings text start vs stop) : ws = vs := by
  induction chain generalizing vs with
  | @last pos stop w here =>
      cases again with
      | last hereToo => rw [(here.unique hereToo).1]
      | @cons _ middle _ v vs hereToo later =>
          have same := (here.unique hereToo).2
          have gap := le_onward text middle
          have longer := later.lt
          omega
  | @cons pos middle stop w ws here later ih =>
      cases again with
      | last hereToo =>
          have same := (here.unique hereToo).2
          have gap := le_onward text middle
          have longer := later.lt
          omega
      | @cons _ other _ v vs hereToo laterToo =>
          obtain ⟨first, same⟩ := here.unique hereToo
          subst first same
          rw [ih laterToo]

end Chains

end Reckon.English

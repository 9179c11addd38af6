import Reckon.Proofs.English.Literals
import Reckon.Proofs.English.NumberReadings
import Reckon.Proofs.Pattern.FewWords

/-!
# Parts of durations in a text

A text writes a duration part by part: a count and a unit, an article and a unit, or half an hour.
How a part begins tells which of these it is, and the rest of it is then determined up to its end: a
count goes on as far as it can, since a unit follows it. So the parts between two places of a text
are determined by the places, wherever words of approximation stand between them.
-/

set_option autoImplicit false

namespace Reckon.English

open Forest Sequencing
open Pattern hiding some

/-! Units. -/

namespace Durations

def unitNames : List String :=
  ["sec", "secs", "second", "seconds", "min", "mins", "minute", "minutes", "hour", "hours", "hr",
    "hrs", "day", "days", "week", "weeks", "month", "months", "year", "years", "yr", "yrs"]

theorem unit_names_plain : ∀ word ∈ unitNames, IsPlain word := by
  decide

theorem one_of_plural {options : List String} {stem : Pattern} (one : OneOf options stem) :
    OneOf (options.flatMap fun word => ["", "s"].map (word ++ ·)) (plural stem) :=
  one.seq (one_of_literal "s").optional

theorem one_of_longer (short more : String) :
    OneOf [short ++ "", short ++ more] (.seq (literal short) (.optional (literal more))) :=
  (one_of_literal short).seq (one_of_literal more).optional

theorem unit_word_stands {text : Array Char} {pos : Nat} {m : Match}
    (found : unitWord.matchAt text pos = some m) :
    ∃ word ∈ unitNames, StandsAt text pos word ∧ m.stop = pos + word.toList.length := by
  apply OneOf.stands _ found
  apply one_of_any_of
  simp only [List.forall_mem_cons]
  have short (stem : String) := one_of_plural (one_of_literal stem)
  have long (stem more : String) := one_of_plural (one_of_longer stem more)
  exact ⟨(long "sec" "ond").mono (by decide), (long "min" "ute").mono (by decide),
    (short "hour").mono (by decide), (short "hr").mono (by decide), (short "day").mono (by decide),
    (short "week").mono (by decide), (short "month").mono (by decide),
    (short "year").mono (by decide), (short "yr").mono (by decide), by simp⟩

end Durations

/-- A unit that the text names from one place to another. -/
structure UnitAt (text : Array Char) (start stop : Nat) (g : TimeGrainValue) : Prop where
  named : ∃ m, Durations.unitWord.matchAt text start = some m ∧ m.stop = stop ∧
    Durations.grain [.text m] = .ok (some (.timeGrain g))

section Units

variable {text : Array Char} {start stop other : Nat} {g h : TimeGrainValue}

theorem UnitAt.stands (unit : UnitAt text start stop g) :
    StandsIn Durations.unitNames text start ∧ start < stop := by
  obtain ⟨m, found, rfl, -⟩ := unit.named
  obtain ⟨word, listed, stands, reached⟩ := Durations.unit_word_stands found
  have positive := List.length_pos_iff.mpr (Durations.unit_names_plain word listed).1
  exact ⟨⟨word, listed, stands⟩, by omega⟩

theorem UnitAt.unique (unit : UnitAt text start stop g) (again : UnitAt text start other h) :
    stop = other ∧ g = h := by
  obtain ⟨m, found, rfl, made⟩ := unit.named
  obtain ⟨n, foundToo, rfl, madeToo⟩ := again.named
  rw [found] at foundToo
  cases foundToo
  rw [made] at madeToo
  cases madeToo
  exact ⟨rfl, rfl⟩

end Units

/-! Counts. -/

/-- A count that the text writes from one place to another, in words or in whole digits. -/
structure CountAt (readings : Readings) (text : Array Char) (start stop : Nat) (n : NumberValue) :
    Prop where
  number : NumberAt readings text start stop n
  extent : (∃ ws, Chain readings text start ws stop) ∨ GroupedAt text start stop ∨
    PlainAt text start stop

def countNames : List String :=
  "zero" :: units.map (·.1) ++ tens.map (·.1) ++ powers.map (·.1)

section Counts

variable {readings : Readings} {text : Array Char} {start stop other : Nat} {m n : NumberValue}

theorem WordAt.stands_in {pos : Nat} {w : Word} (here : WordAt readings text pos w stop) :
    StandsIn countNames text pos := by
  obtain ⟨entry, belongs, word, member, stands, -⟩ := here.stands
  refine ⟨word, ?_, stands⟩
  simp only [Numbers.lexicon, List.mem_cons, List.not_mem_nil, or_false] at belongs
  rcases belongs with rfl | rfl | rfl
  · exact List.mem_append_left _ (List.mem_append_left _ member)
  · exact List.mem_append_left _ (List.mem_append_right _ member)
  · exact List.mem_append_right _ member

theorem Chain.goes_on {ws vs : List Word} (chain : Chain readings text start ws stop)
    (longer : Chain readings text start vs other) (early : stop < other) :
    ∃ w reached, WordAt readings text (onward text stop) w reached := by
  induction chain generalizing vs with
  | last here =>
      cases longer with
      | last hereToo =>
          have same := (here.unique hereToo).2
          omega
      | cons hereToo later =>
          rw [(here.unique hereToo).2]
          exact later.opens
  | @cons pos middle stop w ws here later ih =>
      cases longer with
      | last hereToo =>
          have same := (here.unique hereToo).2
          have gap := le_onward text middle
          have further := later.lt
          omega
      | cons hereToo laterToo =>
          obtain ⟨-, rfl⟩ := here.unique hereToo
          exact ih laterToo early

theorem gap_end_comma {pos : Nat} {c : Char} (comma : text[pos]? = some ',')
    (here : text[pos + 1]? = some c) (solid : Text.isBlank c = false) :
    Text.gapEnd text pos = pos + 1 := by
  simp [Text.gapEnd, blanks_from_solid comma (by decide), comma, blanks_from_solid here solid]

theorem solid_of_digit {c : Char} (digit : Text.isDigit c = true) : Text.isBlank c = false := by
  by_contra blank
  rw [Bool.not_eq_false] at blank
  rw [(foreign_of_blank blank).1] at digit
  cases digit

theorem not_longer_of_digits (grouped : GroupedAt text start other) (after : start < stop)
    (early : stop < other) (ends : ¬DigitAt text stop)
    (unit : StandsIn Durations.unitNames text (Text.gapEnd text stop)) : False := by
  rcases grouped.inner stop after early with digit | ⟨comma, -⟩
  · exact ends digit
  have inside : stop + 1 < other := by
    by_contra last
    obtain rfl : other = stop + 1 := by omega
    exact ends grouped.last
  have next : DigitAt text (stop + 1) := by
    rcases grouped.inner (stop + 1) (by omega) inside with digit | ⟨-, digit⟩
    · exact digit
    · exact absurd digit ends
  obtain ⟨c, here, digit⟩ := next
  rw [gap_end_comma comma here (solid_of_digit digit)] at unit
  obtain ⟨word, listed, stands⟩ := unit
  exact not_literal_of_stands stands (Durations.unit_names_plain word listed) ⟨c, here, .inl digit⟩

theorem CountAt.opens (count : CountAt readings text start stop n) :
    StandsIn countNames text start ∨ DigitAt text start := by
  rcases count.extent with ⟨ws, chain⟩ | grouped | plain
  · obtain ⟨w, reached, here⟩ := chain.opens
    exact .inl here.stands_in
  · exact .inr grouped.first
  · exact .inr (plain.digits start (Nat.le_refl _) plain.nonempty)

theorem not_digit_of_stands_in {words : List String} (here : StandsIn words text start)
    (plain : ∀ word ∈ words, IsPlain word) : ¬DigitAt text start := by
  obtain ⟨word, listed, stands⟩ := here
  rintro ⟨c, found, digit⟩
  exact not_literal_of_stands stands (plain word listed) ⟨c, found, .inl digit⟩

theorem CountAt.lt (count : CountAt readings text start stop n) : start < stop := by
  rcases count.extent with ⟨ws, chain⟩ | grouped | plain
  · exact chain.lt
  · exact grouped.nonempty
  · exact plain.nonempty

theorem CountAt.not_stands_in (count : CountAt readings text start stop n) {words : List String}
    (here : StandsIn words text start) (plain : ∀ word ∈ countNames ++ words, IsPlain word)
    (apart : ∀ word ∈ countNames, word ∉ words) : False := by
  rcases count.opens with there | digit
  · exact there.apart here plain apart
  · exact not_digit_of_stands_in here
      (fun word listed => plain word (List.mem_append_right _ listed)) digit

theorem CountAt.not_longer (count : CountAt readings text start stop m)
    (longer : CountAt readings text start other n)
    (unit : StandsIn Durations.unitNames text (Text.gapEnd text stop)) : ¬stop < other := by
  intro early
  have words {stop : Nat} {ws : List Word} (chain : Chain readings text start ws stop) :
      ¬DigitAt text start := by
    obtain ⟨w, reached, here⟩ := chain.opens
    exact not_digit_of_stands_in here.stands_in (by decide)
  rcases count.extent with ⟨ws, chain⟩ | digits
  · rcases longer.extent with ⟨vs, chainToo⟩ | grouped | plain
    · obtain ⟨w, reached, here⟩ := chain.goes_on chainToo early
      obtain ⟨word, listed, stands⟩ := unit
      have other : ∀ word ∈ Durations.unitNames, word ≠ "and" := by decide
      rw [onward_of_stands stands (Durations.unit_names_plain word listed) (other word listed)]
        at here
      exact here.stands_in.apart ⟨word, listed, stands⟩ (by decide) (by decide)
    · exact words chain grouped.first
    · exact words chain (plain.digits start (Nat.le_refl _) plain.nonempty)
  · have known : start < stop ∧ DigitAt text start ∧ ¬DigitAt text stop := by
      rcases digits with grouped | plain
      · exact ⟨grouped.nonempty, grouped.first, grouped.ends⟩
      · exact ⟨plain.nonempty, plain.digits start (Nat.le_refl _) plain.nonempty, plain.ends⟩
    rcases longer.extent with ⟨vs, chainToo⟩ | grouped | plain
    · exact words chainToo known.2.1
    · exact not_longer_of_digits grouped known.1 early known.2.2 unit
    · exact known.2.2 (plain.digits stop known.1.le early)

end Counts

/-! Parts. -/

namespace Durations

def halfHourWords : Pattern :=
  .whole (.sequence [.literal "half ", article, .literal " hour"])

theorem article_stands {text : Array Char} {pos : Nat} {m : Match}
    (found : (whole article).matchAt text pos = some m) : StandsIn ["a", "an"] text pos := by
  have one : OneOf ["a", "an"] article := (one_of_longer "a" "n").mono (by decide)
  obtain ⟨word, listed, stands, -⟩ := one.stands found
  exact ⟨word, listed, stands⟩

theorem half_hour_words_stands {text : Array Char} {pos : Nat} {m : Match}
    (found : halfHourWords.matchAt text pos = some m) :
    StandsIn ["half"] text pos ∧ pos < m.stop := by
  have one : OneOf ["half" ++ (" " ++ "a hour"), "half" ++ (" " ++ "an hour")]
      (.sequence [.literal "half ", article, .literal " hour"]) :=
    ((one_of_literal "half ").seq ((one_of_longer "a" "n").seq (one_of_literal " hour"))).mono
      (by decide)
  obtain ⟨word, listed, stands, stop⟩ := one.stands found
  simp only [List.mem_cons, List.not_mem_nil, or_false] at listed
  rcases listed with rfl | rfl
  · exact ⟨⟨_, List.mem_singleton_self _, stands.first (by decide)⟩, by rw [stop]; simp⟩
  · exact ⟨⟨_, List.mem_singleton_self _, stands.first (by decide)⟩, by rw [stop]; simp⟩

end Durations

/-- A part of a duration that the text writes from one place to another. -/
inductive PartAt (readings : Readings) (text : Array Char) : Nat → Nat → Grain × Int → Prop
  | counted {start middle stop : Nat} {n : NumberValue} {count : Int} {g : TimeGrainValue}
      (number : CountAt readings text start middle n) (whole : n.value.int? = some count)
      (unit : UnitAt text (Text.gapEnd text middle) stop g) :
      PartAt readings text start stop (g.grain, count)
  | single {start stop : Nat} {m : Match} {g : TimeGrainValue}
      (one : (whole Durations.article).matchAt text start = some m)
      (unit : UnitAt text (Text.gapEnd text m.stop) stop g) :
      PartAt readings text start stop (g.grain, 1)
  | half {start : Nat} {m : Match} (found : Durations.halfHourWords.matchAt text start = some m) :
      PartAt readings text start m.stop (.minute, 30)

section Parts

variable {readings : Readings} {text : Array Char} {start stop other : Nat} {p q : Grain × Int}

def partNames : List String :=
  countNames ++ ["a", "an", "half"]

theorem part_names_plain : ∀ word ∈ partNames, IsPlain word := by
  decide

theorem PartAt.opens (part : PartAt readings text start stop p) :
    StandsIn partNames text start ∨ DigitAt text start := by
  have named {words : List String} (here : StandsIn words text start)
      (listed : ∀ word ∈ words, word ∈ partNames) : StandsIn partNames text start := by
    obtain ⟨word, member, stands⟩ := here
    exact ⟨word, listed word member, stands⟩
  cases part with
  | counted number whole unit =>
      exact number.opens.imp_left fun here => named here (by simp +contextual [partNames])
  | single one unit => exact .inl (named (Durations.article_stands one) (by decide))
  | half found => exact .inl (named (Durations.half_hour_words_stands found).1 (by decide))

theorem PartAt.lt (part : PartAt readings text start stop p) : start < stop := by
  cases part with
  | counted number whole unit =>
      have gap := gap_end_range text
      exact (number.lt.trans_le (gap _).1).trans unit.stands.2
  | single one unit =>
      have gap := gap_end_range text
      exact ((le_of_match_at one).trans (gap _).1).trans_lt unit.stands.2
  | half found => exact (Durations.half_hour_words_stands found).2

theorem PartAt.unique (part : PartAt readings text start stop p)
    (again : PartAt readings text start other q) : stop = other ∧ p = q := by
  cases part with
  | counted number whole unit =>
      cases again with
      | counted numberToo wholeToo unitToo =>
          have first := number.not_longer numberToo unit.stands.1
          have second := numberToo.not_longer number unitToo.stands.1
          obtain rfl := Nat.le_antisymm (Nat.not_lt.mp second) (Nat.not_lt.mp first)
          obtain ⟨rfl, rfl⟩ := unit.unique unitToo
          rw [number.number.unique numberToo.number, wholeToo] at whole
          cases whole
          exact ⟨rfl, rfl⟩
      | single one unitToo =>
          exact (number.not_stands_in (Durations.article_stands one) (by decide) (by decide)).elim
      | half found =>
          exact (number.not_stands_in (Durations.half_hour_words_stands found).1 (by decide)
            (by decide)).elim
  | single one unit =>
      have here := Durations.article_stands one
      cases again with
      | counted number whole unitToo =>
          exact (number.not_stands_in here (by decide) (by decide)).elim
      | single oneToo unitToo =>
          rw [one] at oneToo
          cases oneToo
          obtain ⟨rfl, rfl⟩ := unit.unique unitToo
          exact ⟨rfl, rfl⟩
      | half found =>
          exact (here.apart (Durations.half_hour_words_stands found).1 (by decide) (by decide)).elim
  | half found =>
      have here := (Durations.half_hour_words_stands found).1
      cases again with
      | counted number whole unit =>
          exact (number.not_stands_in here (by decide) (by decide)).elim
      | single one unit =>
          exact (here.apart (Durations.article_stands one) (by decide) (by decide)).elim
      | half foundToo =>
          rw [found] at foundToo
          cases foundToo
          exact ⟨rfl, rfl⟩

end Parts

/-! Courses of parts. -/

namespace Durations

/-- What may stand between durations: the word "and", or nothing. -/
def joint : Pattern :=
  .optional (.wholeWord ["and"])

/-- Where the duration after another one begins: after a gap, or after "and" between two gaps. -/
def onward (text : Array Char) (pos : Nat) : Nat :=
  match joint.matchAt text (Text.gapEnd text pos) with
  | some m => Text.gapEnd text (if m.start < m.stop then m.stop else pos)
  | none => Text.gapEnd text pos

theorem le_onward (text : Array Char) (pos : Nat) : pos ≤ onward text pos := by
  have gap := gap_end_range text pos
  unfold onward
  split
  · rename_i m found
    have range := match_at_range text _ _ m found
    split
    · have later := gap_end_range text m.stop
      omega
    · exact gap.1
  · exact gap.1

end Durations

/-- Parts of a duration that follow one another from one place to another, perhaps with words of
approximation before them. -/
inductive Course (readings : Readings) (text : Array Char) : Nat → Nat → Period → Prop
  | last {start stop : Nat} {p : Grain × Int} (part : PartAt readings text start stop p) :
      Course readings text start stop [p]
  | cons {start middle stop : Nat} {p : Grain × Int} {period : Period}
      (part : PartAt readings text start middle p)
      (later : Course readings text (Durations.onward text middle) stop period) :
      Course readings text start stop (p :: period)
  | about {start stop : Nat} {m : Match} {period : Period}
      (mark : approximation.matchAt text start = some m)
      (later : Course readings text (Text.gapEnd text m.stop) stop period) :
      Course readings text start stop period

section Courses

variable {readings : Readings} {text : Array Char} {start middle stop : Nat} {p q : Grain × Int}
  {period other : Period} {m : Match}

theorem approximation_stands (mark : approximation.matchAt text start = some m) :
    text[start]? = some '~' ∨ StandsIn
      ["about", "around", "approximately", "roughly", "nearly", "almost"] text start := by
  rw [approximation, match_at_alt, Option.or_eq_some_iff] at mark
  rcases mark with sign | ⟨-, word⟩
  · obtain ⟨c, here, accepted, -⟩ := (match_at_one _ _ _ _).mp sign
    left
    simpa [CharClass.accepts, here] using accepted
  · obtain ⟨word, listed, stands, -⟩ := match_at_whole_word word
    exact .inr ⟨word, listed, stands⟩

theorem PartAt.not_about (part : PartAt readings text start stop p)
    (mark : approximation.matchAt text start = some m) : False := by
  rcases approximation_stands mark with sign | about
  · rcases part.opens with ⟨word, listed, stands⟩ | ⟨c, here, digit⟩
    · obtain ⟨c, here, -, letter⟩ := stands.opens_letter (part_names_plain word listed)
      rw [sign] at here
      cases here
      revert letter
      decide
    · rw [sign] at here
      cases here
      revert digit
      decide
  · rcases part.opens with here | digit
    · exact here.apart about (by decide) (by decide)
    · exact not_digit_of_stands_in about (by decide) digit

theorem Course.lt (course : Course readings text start stop period) : start < stop := by
  induction course with
  | last part => exact part.lt
  | cons part later ih => exact part.lt.trans ((Durations.le_onward text _).trans_lt ih)
  | about mark later ih =>
      exact ((le_of_match_at mark).trans (gap_end_range text _).1).trans_lt ih

theorem Course.append (course : Course readings text start middle period)
    (others : Course readings text (Durations.onward text middle) stop other) :
    Course readings text start stop (period ++ other) := by
  induction course with
  | last part => exact .cons part others
  | cons part later ih => exact .cons part (ih others)
  | about mark later ih => exact .about mark (ih others)

theorem Course.unique (course : Course readings text start stop period)
    (again : Course readings text start stop other) : period = other := by
  induction course generalizing other with
  | last part =>
      cases again with
      | last partToo => rw [(part.unique partToo).2]
      | cons partToo later =>
          obtain ⟨rfl, -⟩ := part.unique partToo
          exact absurd later.lt (Durations.le_onward text _).not_gt
      | about mark later => exact (part.not_about mark).elim
  | cons part later ih =>
      cases again with
      | last partToo =>
          obtain ⟨rfl, -⟩ := part.unique partToo
          exact absurd later.lt (Durations.le_onward text _).not_gt
      | cons partToo laterToo =>
          obtain ⟨rfl, rfl⟩ := part.unique partToo
          rw [ih laterToo]
      | about mark later => exact (part.not_about mark).elim
  | about mark later ih =>
      cases again with
      | last part => exact (part.not_about mark).elim
      | cons part laterToo => exact (part.not_about mark).elim
      | about markToo laterToo =>
          rw [mark] at markToo
          cases markToo
          exact ih laterToo

end Courses

end Reckon.English

import Reckon.Proofs.English.SpokenNumbers

/-!
# Numbers spelled out

The spelling of the numbers below a million millions: groups of three digits with their powers of a
thousand, hundreds, and a hyphen between tens and units. The words are kept apart from what sets
them off in the text. What the rules build of the words follows the spelling: each part of it
denotes a number, which is built of the part wherever this lies in a text.
-/

set_option autoImplicit false

namespace Reckon.English

open Pattern hiding some

/-! The spelling. -/

structure Token where
  joined : Bool
  word : String
deriving DecidableEq, Repr

def Token.mark (t : Token) : Char :=
  if t.joined then '-' else ' '

def belowTwenty : List String :=
  ["zero", "one", "two", "three", "four", "five", "six", "seven", "eight", "nine", "ten", "eleven",
    "twelve", "thirteen", "fourteen", "fifteen", "sixteen", "seventeen", "eighteen", "nineteen"]

def multiplesOfTen : List String :=
  ["twenty", "thirty", "forty", "fifty", "sixty", "seventy", "eighty", "ninety"]

def spellHundred (n : Nat) : List Token :=
  if n < 20 then [⟨false, belowTwenty.getD n ""⟩]
  else ⟨false, multiplesOfTen.getD (n / 10 - 2) ""⟩ ::
    if n % 10 = 0 then [] else [⟨true, belowTwenty.getD (n % 10) ""⟩]

/-- How often a power of ten goes into a number, its name, and what is left over. -/
def spellPower (exponent : Nat) (name : String) (count rest : Nat → List Token) (n : Nat) :
    List Token :=
  (if n / 10 ^ exponent = 0 then [] else count (n / 10 ^ exponent) ++ [⟨false, name⟩]) ++
    if n % 10 ^ exponent = 0 then [] else rest (n % 10 ^ exponent)

def spellThousand : Nat → List Token :=
  spellPower 2 "hundred" spellHundred spellHundred

def spellMillion : Nat → List Token :=
  spellPower 3 "thousand" spellThousand spellThousand

def spellBillion : Nat → List Token :=
  spellPower 6 "million" spellThousand spellMillion

def spellTrillion : Nat → List Token :=
  spellPower 9 "billion" spellThousand spellBillion

def spelling (n : Nat) : List Token :=
  if n = 0 then [⟨false, "zero"⟩] else spellTrillion n

def written (ts : List Token) : List Char :=
  ts.flatMap fun t => t.mark :: t.word.toList

def spell (n : Nat) : List Char :=
  (written (spelling n)).drop 1

example : String.ofList (spell 21) = "twenty-one" := by
  decide

example : String.ofList (spell 600014000300) =
    "six hundred billion fourteen million three hundred" := by
  decide

/-! Where words lie. -/

/-- Words that follow one another in a text, each after what sets it off. -/
def Follows (text : Array Char) : Nat → List Token → Nat → Prop
  | pos, [], stop => pos = stop
  | pos, t :: ts, stop => text[pos]? = some t.mark ∧ StandsAt text (pos + 1) t.word ∧
      Follows text (pos + 1 + t.word.toList.length) ts stop

def Lies (text : Array Char) (start : Nat) : List Token → Nat → Prop
  | [], _ => False
  | t :: ts, stop => StandsAt text start t.word ∧
      Follows text (start + t.word.toList.length) ts stop

section Places

variable {text : Array Char} {start pos stop : Nat} {t : Token} {ts us : List Token}

theorem follows_append : Follows text pos (ts ++ us) stop ↔
    ∃ middle, Follows text pos ts middle ∧ Follows text middle us stop := by
  induction ts generalizing pos with
  | nil => simp [Follows]
  | cons t ts ih =>
      rw [List.cons_append, Follows, ih]
      constructor
      · rintro ⟨mark, stands, middle, first, second⟩
        exact ⟨middle, ⟨mark, stands, first⟩, second⟩
      · rintro ⟨middle, ⟨mark, stands, first⟩, second⟩
        exact ⟨mark, stands, middle, first, second⟩

theorem Lies.split (lies : Lies text start (ts ++ us) stop) (nonempty : ts ≠ []) :
    ∃ middle, Lies text start ts middle ∧ Follows text middle us stop := by
  cases ts with
  | nil => exact absurd rfl nonempty
  | cons t ts =>
      obtain ⟨stands, follows⟩ := lies
      obtain ⟨middle, first, second⟩ := follows_append.mp follows
      exact ⟨middle, ⟨stands, first⟩, second⟩

theorem Follows.lies (follows : Follows text pos us stop) (nonempty : us ≠ []) :
    (text[pos]? = some ' ' ∨ text[pos]? = some '-') ∧ Lies text (pos + 1) us stop := by
  cases us with
  | nil => exact absurd rfl nonempty
  | cons t ts =>
      obtain ⟨mark, stands, later⟩ := follows
      refine ⟨?_, stands, later⟩
      rw [mark, Token.mark]
      cases t.joined <;> simp

end Places

/-! Texts that are written out. -/

def Known (ts : List Token) : Prop :=
  ∀ t ∈ ts, ∃ w, (t.word, w) ∈ vocabulary

theorem mark_not_letter (t : Token) : Text.isWordChar t.mark = false := by
  rw [Token.mark]
  cases t.joined <;> decide

theorem reads_at_append (pre post : List Char) {cs : List Char}
    (lower : ∀ c ∈ cs, c.isLower = true) :
    ReadsAt (pre ++ cs ++ post).toArray pre.length cs := by
  induction cs generalizing pre with
  | nil => trivial
  | cons c cs ih =>
      refine ⟨⟨c, by simp, ?_⟩, ?_⟩
      · rw [accepts_literal_class (lower c List.mem_cons_self)]
        exact matches_letter_self (lower c List.mem_cons_self)
      · have later := ih (pre ++ [c]) fun d member => lower d (List.mem_cons_of_mem _ member)
        simpa using later

/-- A plain word between characters that are none of a word stands whole. -/
theorem stands_at_append (pre post : List Char) {word : String} (plain : IsPlain word)
    (before : ∀ c ∈ pre.getLast?, Text.isWordChar c = false)
    (after : ∀ c ∈ post.head?, Text.isWordChar c = false) :
    StandsAt (pre ++ word.toList ++ post).toArray pre.length word := by
  have reads := reads_at_append pre post plain.2
  have positive := List.length_pos_iff.mpr plain.1
  have first := reads.is_word_at plain.2 (i := 0) positive
  have last := reads.is_word_at plain.2 (i := word.toList.length - 1) (by omega)
  refine ⟨?_, reads, ?_⟩
  · have outside : (pre.length != 0 &&
        isWordAt (pre ++ word.toList ++ post).toArray (pre.length - 1)) = false := by
      rcases List.eq_nil_or_concat pre with rfl | ⟨init, c, rfl⟩
      · rfl
      · simp [isWordAt, before c (by simp)]
    rw [isEdge, outside, show isWordAt _ pre.length = true from first]
    rfl
  · have outside : isWordAt (pre ++ word.toList ++ post).toArray
        (pre.length + word.toList.length) = false := by
      cases post with
      | nil => simp [isWordAt]
      | cons c rest => simp [isWordAt, after c (by simp)]
    have inside : pre.length + word.toList.length - 1 = pre.length + (word.toList.length - 1) := by
      omega
    have later : (pre.length + word.toList.length != 0) = true := by
      rw [bne_iff_ne]
      omega
    rw [isEdge, outside, inside, last, later]
    rfl

theorem Known.plain {ts : List Token} (known : Known ts) : ∀ t ∈ ts, IsPlain t.word := by
  intro t member
  obtain ⟨w, named⟩ := known t member
  exact vocabulary_plain _ named

theorem head?_written (ts : List Token) : ∀ c ∈ (written ts).head?, Text.isWordChar c = false := by
  cases ts with
  | nil => simp [written]
  | cons t ts =>
      intro c first
      have mark : t.mark = c := by simpa [written] using first
      rw [← mark]
      exact mark_not_letter t

theorem follows_written {ts : List Token} (known : Known ts) (pre : List Char) :
    Follows (pre ++ written ts).toArray pre.length ts (pre ++ written ts).length := by
  induction ts generalizing pre with
  | nil => simp [Follows, written]
  | cons t ts ih =>
      have split : pre ++ written (t :: ts) = (pre ++ [t.mark]) ++ t.word.toList ++ written ts := by
        simp [written]
      have stands := stands_at_append (pre ++ [t.mark]) (written ts)
        (known.plain t List.mem_cons_self) (by simp [mark_not_letter]) (head?_written ts)
      have later := ih (fun u member => known u (List.mem_cons_of_mem _ member))
        (pre ++ [t.mark] ++ t.word.toList)
      have place : pre.length + 1 + t.word.toList.length =
          (pre ++ [t.mark] ++ t.word.toList).length := by
        simp
        omega
      rw [split]
      refine ⟨by simp, by simpa using stands, ?_⟩
      rw [place]
      exact later

theorem lies_written {t : Token} {ts : List Token} (known : Known (t :: ts)) :
    Lies (t.word.toList ++ written ts).toArray 0 (t :: ts)
      (t.word.toList ++ written ts).length := by
  have stands := stands_at_append [] (written ts)
    (known.plain t List.mem_cons_self) (by simp) (head?_written ts)
  have later := follows_written (fun u member => known u (List.mem_cons_of_mem _ member))
    t.word.toList
  exact ⟨by simpa using stands, by simpa using later⟩

/-- A word that starts at an edge among words that follow one another is one of them. -/
theorem Follows.words {text : Array Char} {start : Nat} {ts : List Token}
    (follows : Follows text start ts text.size) (plain : ∀ t ∈ ts, IsPlain t.word) {pos : Nat}
    (after : start ≤ pos) (opens : isEdge text pos = true) (letter : isWordAt text pos = true) :
    ∃ t ∈ ts, StandsAt text pos t.word := by
  induction ts generalizing start with
  | nil =>
      have beyond : text.size ≤ pos := by
        rw [Follows] at follows
        omega
      simp [isWordAt, beyond] at letter
  | cons t ts ih =>
      obtain ⟨mark, stands, later⟩ := follows
      by_cases far : start + 1 + t.word.toList.length ≤ pos
      · obtain ⟨u, member, there⟩ := ih later
          (fun u member => plain u (List.mem_cons_of_mem _ member)) far
        exact ⟨u, List.mem_cons_of_mem _ member, there⟩
      · rcases Nat.lt_trichotomy pos (start + 1) with before | rfl | inside
        · obtain rfl : pos = start := by omega
          simp [isWordAt, mark, mark_not_letter] at letter
        · exact ⟨t, List.mem_cons_self, stands⟩
        · rw [stands.reads.no_edge (plain t List.mem_cons_self).2 pos inside (by omega)] at opens
          cases opens

/-- What known words are written to is a text of number words. -/
theorem number_text_written {t : Token} {ts : List Token} (known : Known (t :: ts)) :
    NumberText (t.word.toList ++ written ts).toArray where
  letters := by
    intro c member
    rw [List.mem_toArray, List.mem_append, written, List.mem_flatMap] at member
    rcases member with letter | ⟨u, inside, part⟩
    · exact .inl ((known.plain t List.mem_cons_self).2 c letter)
    · rcases List.mem_cons.mp part with rfl | letter
      · rw [Token.mark]
        cases u.joined <;> simp
      · exact .inl ((known.plain u (List.mem_cons_of_mem _ inside)).2 c letter)
  words := by
    intro pos opens letter
    obtain ⟨stands, follows⟩ := lies_written known
    have listed : ∃ u ∈ t :: ts, StandsAt (t.word.toList ++ written ts).toArray pos u.word := by
      by_cases far : 0 + t.word.toList.length ≤ pos
      · obtain ⟨u, member, there⟩ := follows.words
          (fun u member => known.plain u (List.mem_cons_of_mem _ member)) far opens letter
        exact ⟨u, List.mem_cons_of_mem _ member, there⟩
      · rcases Nat.eq_zero_or_pos pos with rfl | inside
        · exact ⟨t, List.mem_cons_self, stands⟩
        · rw [stands.reads.no_edge (known.plain t List.mem_cons_self).2 pos inside (by omega)]
            at opens
          cases opens
    obtain ⟨u, member, there⟩ := listed
    obtain ⟨w, named⟩ := known u member
    exact ⟨_, named, there⟩

/-! What spellings denote. -/

/-- Known words of which the rules build a number wherever they lie among number words. -/
structure Denotes (rs : RuleSet Value) (ts : List Token) (value grain : Int) : Prop where
  nonempty : ts ≠ []
  known : Known ts
  spoken : ∀ text, NumberText text → ∀ start stop, Lies text start ts stop →
    Spoken rs text start stop value grain

section Denotes

variable {rs : RuleSet Value} {readings : Readings} (usual : readings.Usual)
  (english : rs.rules = rulesWith readings) {ts us : List Token} {name : String} {a b g h : Int}

include english

theorem Denotes.join (larger : Denotes rs ts a g) (nonneg : 0 ≤ a) (least : 1 ≤ g)
    (zeros : a % 10 ^ g.toNat = 0) (smaller : Denotes rs us b h) (positive : 0 < b)
    (less : b < 10 ^ g.toNat) : Denotes rs (ts ++ us) (a + b) h where
  nonempty := by simp [larger.nonempty]
  known := List.forall_mem_append.mpr ⟨larger.known, smaller.known⟩
  spoken := by
    intro text only start stop lies
    obtain ⟨middle, first, follows⟩ := lies.split larger.nonempty
    obtain ⟨between, second⟩ := follows.lies smaller.nonempty
    exact (larger.spoken text only start middle first).join only english nonneg least zeros between
      (smaller.spoken text only (middle + 1) stop second) positive less

include usual

theorem denotes_word {w : Word} {value : Int} (joined : Bool) (named : (name, w) ∈ vocabulary)
    (holds : w.number.value = .int value) : Denotes rs [⟨joined, name⟩] value w.grain where
  nonempty := by simp
  known := List.forall_mem_singleton.mpr ⟨w, named⟩
  spoken := by
    rintro text only start stop ⟨stands, rfl⟩
    exact .word only usual english named holds stands

theorem Denotes.scale (factor : Denotes rs ts a g) (least : 1 ≤ a) (most : a < 1000) {e : Nat}
    {large : 2 ≤ e} (less : g < e) (named : (name, .power e large) ∈ vocabulary) :
    Denotes rs (ts ++ [⟨false, name⟩]) (a * 10 ^ e) e where
  nonempty := by simp
  known := List.forall_mem_append.mpr
    ⟨factor.known, List.forall_mem_singleton.mpr ⟨_, named⟩⟩
  spoken := by
    intro text only start stop lies
    obtain ⟨middle, first, space, stands, rfl⟩ := lies.split factor.nonempty
    exact (factor.spoken text only start middle first).scale only usual english least most less
      named space stands

theorem below_twenty_denotes {n : Nat} (small : n < 20) (joined : Bool) :
    ∃ g ≤ 1, Denotes rs [⟨joined, belowTwenty.getD n ""⟩] n g := by
  have named : ∀ n < 20, (belowTwenty.getD n "", Word.plain n (10 ≤ n)) ∈ vocabulary := by
    decide
  refine ⟨_, ?_, denotes_word usual english joined (named n small) rfl⟩
  by_cases large : 10 ≤ n <;> simp [Word.grain, large]

theorem multiples_of_ten_denote {k : Nat} (least : 2 ≤ k) (most : k < 10) :
    Denotes rs [⟨false, multiplesOfTen.getD (k - 2) ""⟩] (k * 10 : Nat) 1 := by
  have named : ∀ k < 10, 2 ≤ k →
      (multiplesOfTen.getD (k - 2) "", Word.plain (k * 10 : Nat) true) ∈ vocabulary := by
    decide
  exact denotes_word usual english false (named k most least) rfl

theorem spell_hundred_denotes {n : Nat} (small : n < 100) :
    ∃ g ≤ 1, Denotes rs (spellHundred n) n g := by
  by_cases few : n < 20
  · rw [spellHundred, if_pos few]
    exact below_twenty_denotes usual english few false
  · have tens := multiples_of_ten_denote usual english (k := n / 10) (by omega) (by omega)
    rw [spellHundred, if_neg few]
    by_cases whole : n % 10 = 0
    · rw [if_pos whole]
      have value : n / 10 * 10 = n := by omega
      rw [value] at tens
      exact ⟨1, le_refl 1, tens⟩
    · rw [if_neg whole]
      obtain ⟨g, most, ones⟩ := below_twenty_denotes usual english (n := n % 10) (by omega) true
      have both := tens.join english (by omega) (le_refl 1) (by norm_num) ones (by omega)
        (by norm_num; omega)
      have value : ((n / 10 * 10 : Nat) : Int) + (n % 10 : Nat) = n := by omega
      rw [value] at both
      exact ⟨g, most, both⟩

/-- If the counts of a power of ten are spelled right, and what is left over is, then so are the
numbers that the power goes into. -/
theorem spell_power_denotes {e bound : Nat} (large : 2 ≤ e) {count rest : Nat → List Token}
    (named : (name, .power e large) ∈ vocabulary) (few : bound ≤ 1000)
    (counts : ∀ k, 0 < k → k < bound → ∃ g < (e : Int), Denotes rs (count k) k g)
    (rests : ∀ k, 0 < k → k < 10 ^ e → ∃ g < (e : Int), Denotes rs (rest k) k g)
    {n : Nat} (positive : 0 < n) (small : n < bound * 10 ^ e) :
    ∃ g ≤ (e : Int), Denotes rs (spellPower e name count rest n) n g := by
  have unit : 0 < 10 ^ e := by positivity
  have most : n / 10 ^ e < bound := Nat.div_lt_of_lt_mul (by rwa [Nat.mul_comm])
  have low : n % 10 ^ e < 10 ^ e := Nat.mod_lt _ unit
  have whole : n / 10 ^ e * 10 ^ e + n % 10 ^ e = n := Nat.div_add_mod' n (10 ^ e)
  rw [spellPower]
  generalize n / 10 ^ e = k at most whole
  generalize n % 10 ^ e = r at low whole
  by_cases none : k = 0
  · rw [none, Nat.zero_mul, Nat.zero_add] at whole
    obtain ⟨g, less, counted⟩ := rests n positive (by omega)
    rw [if_pos none, whole, if_neg (by omega), List.nil_append]
    exact ⟨g, less.le, counted⟩
  · obtain ⟨g, less, counted⟩ := counts k (by omega) most
    have scaled := counted.scale usual english (by omega) (by omega) less named
    rw [if_neg none]
    by_cases even : r = 0
    · have value : (k : Int) * 10 ^ e = n := by
        rw [even, Nat.add_zero] at whole
        exact_mod_cast whole
      rw [value] at scaled
      rw [if_pos even, List.append_nil]
      exact ⟨e, le_refl _, scaled⟩
    · obtain ⟨h, lessToo, smaller⟩ := rests r (by omega) low
      have value : (k : Int) * 10 ^ e + r = n := by
        exact_mod_cast whole
      have both := scaled.join english (by positivity) (by omega) (by simp) smaller (by omega)
        (by rw [Int.toNat_natCast]; exact_mod_cast low)
      rw [value] at both
      rw [if_neg even]
      exact ⟨h, lessToo.le, both⟩

theorem spell_thousand_denotes {n : Nat} (positive : 0 < n) (small : n < 10 ^ 3) :
    ∃ g ≤ 2, Denotes rs (spellThousand n) n g := by
  have tens : ∀ k, 0 < k → k < 10 ^ 2 → ∃ g < (2 : Int), Denotes rs (spellHundred k) k g := by
    intro k _ few
    obtain ⟨g, most, counted⟩ := spell_hundred_denotes usual english few
    exact ⟨g, by omega, counted⟩
  have digits : ∀ k, 0 < k → k < 10 → ∃ g < (2 : Int), Denotes rs (spellHundred k) k g :=
    fun k some few => tens k some (by omega)
  exact spell_power_denotes usual english (le_refl 2) (by decide) (by norm_num) digits tens positive
    (by omega)

theorem spell_groups_denotes {e : Nat} {rest : Nat → List Token} (above : 3 ≤ e)
    (named : (name, .power e (Nat.le_of_succ_le above)) ∈ vocabulary)
    (rests : ∀ k, 0 < k → k < 10 ^ e → ∃ g < (e : Int), Denotes rs (rest k) k g)
    {n : Nat} (positive : 0 < n) (small : n < 10 ^ (e + 3)) :
    ∃ g ≤ (e : Int), Denotes rs (spellPower e name spellThousand rest n) n g := by
  have groups : ∀ k, 0 < k → k < 1000 → ∃ g < (e : Int), Denotes rs (spellThousand k) k g := by
    intro k some few
    obtain ⟨g, most, counted⟩ := spell_thousand_denotes usual english some few
    exact ⟨g, by omega, counted⟩
  refine spell_power_denotes usual english (Nat.le_of_succ_le above) named (le_refl 1000) groups
    rests positive ?_
  rw [pow_add, Nat.mul_comm] at small
  exact small

theorem spell_million_denotes {n : Nat} (positive : 0 < n) (small : n < 10 ^ 6) :
    ∃ g ≤ 3, Denotes rs (spellMillion n) n g := by
  refine spell_groups_denotes usual english (le_refl 3) (by decide) ?_ positive small
  intro k some few
  obtain ⟨g, most, counted⟩ := spell_thousand_denotes usual english some few
  exact ⟨g, most.trans_lt (by norm_num), counted⟩

theorem spell_billion_denotes {n : Nat} (positive : 0 < n) (small : n < 10 ^ 9) :
    ∃ g ≤ 6, Denotes rs (spellBillion n) n g := by
  refine spell_groups_denotes usual english (by decide) (by decide) ?_ positive small
  intro k some few
  obtain ⟨g, most, counted⟩ := spell_million_denotes usual english some few
  exact ⟨g, most.trans_lt (by norm_num), counted⟩

theorem spell_trillion_denotes {n : Nat} (positive : 0 < n) (small : n < 10 ^ 12) :
    ∃ g ≤ 9, Denotes rs (spellTrillion n) n g := by
  refine spell_groups_denotes usual english (by decide) (by decide) ?_ positive small
  intro k some few
  obtain ⟨g, most, counted⟩ := spell_billion_denotes usual english some few
  exact ⟨g, most.trans_lt (by norm_num), counted⟩

/-- A spelling denotes the number that it spells. -/
theorem spelling_denotes {n : Nat} (small : n < 10 ^ 12) : ∃ g, Denotes rs (spelling n) n g := by
  by_cases zero : n = 0
  · rw [spelling, if_pos zero, zero]
    exact ⟨_, denotes_word usual english false (w := .plain 0 false) (by decide) rfl⟩
  · rw [spelling, if_neg zero]
    obtain ⟨g, -, counted⟩ := spell_trillion_denotes usual english (by omega) small
    exact ⟨g, counted⟩

end Denotes

end Reckon.English

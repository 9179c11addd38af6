import Reckon.Proofs.Pattern.Ways

/-!
# Whole words

A word stands whole at a place of a text if the text reads it there, in either case, between two
edges. Words of lower-case letters that stand whole at one place are the same word, so a pattern of
whole words has at most one match at a place; and as no word starts inside another, each word that
stands whole is found by a search of the text.
-/

set_option autoImplicit false

namespace Reckon.Pattern

/-! Letters. -/

theorem to_nat_of_is_lower {c : Char} (lower : c.isLower = true) :
    97 ≤ c.toNat ∧ c.toNat ≤ 122 := by
  have both : (decide (c.val ≥ 'a'.val) && decide (c.val ≤ 'z'.val)) = true := lower
  rw [Bool.and_eq_true, decide_eq_true_iff, decide_eq_true_iff] at both
  exact ⟨both.1, both.2⟩

theorem to_lower_of_large {c : Char} (large : 90 < c.toNat) : c.toLower = c := by
  unfold Char.toLower
  rw [dif_neg]
  rintro ⟨-, small⟩
  have bound : c.toNat ≤ 90 := small
  omega

theorem folds_to_large {letter : Char} {n : Nat}
    (folds : CharClass.foldsTo letter = Option.some n) : n = 0x130 ∨ n = 0x17F ∨ n = 0x212A := by
  unfold CharClass.foldsTo at folds
  split at folds <;> simp_all

theorem folds_to_injective {a b : Char} {n : Nat} (left : CharClass.foldsTo a = Option.some n)
    (right : CharClass.foldsTo b = Option.some n) : a = b := by
  unfold CharClass.foldsTo at left right
  split at left <;> split at right <;> simp_all <;> omega

/-- A character stands for a lower-case letter in one of two ways: by its own lower case, or as one
of the letters outside ASCII that fold. -/
theorem matches_letter_cases {letter c : Char} (stands : CharClass.matchesLetter letter c = true) :
    c.toLower = letter ∨ CharClass.foldsTo letter = Option.some c.toNat := by
  simpa [CharClass.matchesLetter] using stands

theorem to_lower_ne_letter {letter c : Char} (lower : letter.isLower = true)
    {n : Nat} (known : c.toNat = n) (large : 122 < n) : c.toLower ≠ letter := by
  intro same
  have range := to_nat_of_is_lower lower
  rw [to_lower_of_large (by omega)] at same
  rw [same] at known
  omega

/-- A character stands for at most one lower-case letter. -/
theorem letter_unique {a b c : Char} (lowerA : a.isLower = true) (lowerB : b.isLower = true)
    (standsA : CharClass.matchesLetter a c = true) (standsB : CharClass.matchesLetter b c = true) :
    a = b := by
  rcases matches_letter_cases standsA with left | left
  · rcases matches_letter_cases standsB with right | right
    · exact left.symm.trans right
    · exact absurd left (to_lower_ne_letter lowerA rfl (by
        rcases folds_to_large right with n | n | n <;> omega))
  · rcases matches_letter_cases standsB with right | right
    · exact absurd right (to_lower_ne_letter lowerB rfl (by
        rcases folds_to_large left with n | n | n <;> omega))
    · exact folds_to_injective left right

/-- The characters that can stand for a letter: letters of ASCII, and those outside that fold. -/
theorem code_of_letter {letter c : Char} (lower : letter.isLower = true)
    (stands : CharClass.matchesLetter letter c = true) :
    (97 ≤ c.toNat ∧ c.toNat ≤ 122) ∨ (65 ≤ c.toNat ∧ c.toNat ≤ 90) ∨
      c.toNat = 0x130 ∨ c.toNat = 0x17F ∨ c.toNat = 0x212A := by
  rcases matches_letter_cases stands with same | folds
  · have range := to_nat_of_is_lower lower
    by_cases capital : c.toNat ≤ 90
    · refine .inr (.inl ⟨?_, capital⟩)
      by_contra low
      rw [← same] at range
      unfold Char.toLower at range
      rw [dif_neg (by rintro ⟨above, -⟩; exact low above)] at range
      omega
    · rw [to_lower_of_large (by omega)] at same
      rw [same]
      exact .inl range
  · exact .inr (.inr (folds_to_large folds))

theorem is_word_char_of_letter {letter c : Char} (lower : letter.isLower = true)
    (stands : CharClass.matchesLetter letter c = true) : Text.isWordChar c = true := by
  have ascii : c.toNat < 0x80 →
      ((97 ≤ c.toNat ∧ c.toNat ≤ 122) ∨ (65 ≤ c.toNat ∧ c.toNat ≤ 90)) →
        Text.isWordChar c = true := by
    intro small range
    simp only [Text.isWordChar, Text.isAsciiWord, if_pos small, Bool.or_eq_true, Bool.and_eq_true,
      decide_eq_true_eq]
    omega
  -- the letters outside ASCII are looked up in the table as a list, which is faster to evaluate
  have foreign : ∀ n ∈ [0x130, 0x17F, 0x212A], c.toNat = n → Text.isWordChar c = true := by
    have listed : ∀ n ∈ [0x130, 0x17F, 0x212A], 0x80 ≤ n ∧
        (Text.wordRanges.toList.any fun range => range.1 ≤ n && n ≤ range.2) = true := by
      decide +kernel
    rintro n member rfl
    obtain ⟨large, inside⟩ := listed _ member
    simp only [Text.isWordChar, if_neg (Nat.not_lt.mpr large), ← Array.any_toList, inside]
  rcases code_of_letter lower stands with small | large | n | n | n
  · exact ascii (by omega) (.inl small)
  · exact ascii (by omega) (.inr large)
  · exact foreign _ (by simp) n
  · exact foreign _ (by simp) n
  · exact foreign _ (by simp) n

theorem is_digit_of_letter {letter c : Char} (lower : letter.isLower = true)
    (stands : CharClass.matchesLetter letter c = true) : Text.isDigit c = false := by
  have ascii : c.toNat < 0x80 → ¬(0x30 ≤ c.toNat ∧ c.toNat ≤ 0x39) → Text.isDigit c = false := by
    intro small other
    simp [Text.isDigit, Text.digitValue?, small]
    omega
  have known : c = Char.ofNat c.toNat := (Char.ofNat_toNat c).symm
  rcases code_of_letter lower stands with small | large | n | n | n
  · exact ascii (by omega) (by omega)
  · exact ascii (by omega) (by omega)
  · rw [known, n]
    decide +kernel
  · rw [known, n]
    decide +kernel
  · rw [known, n]
    decide +kernel

/-! What literals and words match. -/

/-- The text reads the characters of a literal from a place on, letters in either case. -/
def ReadsAt (text : Array Char) : Nat → List Char → Prop
  | _, [] => True
  | pos, c :: cs =>
    (∃ d, text[pos]? = Option.some d ∧ (literalClass c).accepts d = true) ∧
      ReadsAt text (pos + 1) cs

/-- A word stands at a place between two edges. -/
structure StandsAt (text : Array Char) (pos : Nat) (word : String) : Prop where
  opens : isEdge text pos = true
  reads : ReadsAt text pos word.toList
  closes : isEdge text (pos + word.toList.length) = true

theorem mem_run_sequence_literal (text : Array Char) (cs : List Char) (cursor next : Cursor) :
    next ∈ (sequence (cs.map fun c => one (literalClass c))).run text cursor ↔
      ReadsAt text cursor.pos cs ∧ next = { cursor with pos := cursor.pos + cs.length } := by
  induction cs generalizing cursor with
  | nil => simp [sequence, run, ReadsAt]
  | cons c cs ih =>
      rw [List.map_cons, run_sequence_cons, List.mem_flatMap, ReadsAt]
      constructor
      · rintro ⟨middle, stepped, later⟩
        obtain ⟨accepted, same⟩ := (mem_run_one _ _ _ _).mp stepped
        subst same
        obtain ⟨reads, same⟩ := (ih _).mp later
        refine ⟨⟨accepted, reads⟩, ?_⟩
        rw [same, List.length_cons]
        simp only [Nat.add_assoc, Nat.add_comm 1]
      · rintro ⟨⟨accepted, reads⟩, same⟩
        refine ⟨_, (mem_run_one _ _ _ _).mpr ⟨accepted, rfl⟩, (ih _).mpr ⟨reads, ?_⟩⟩
        rw [same, List.length_cons]
        simp only [Nat.add_assoc, Nat.add_comm 1]

theorem mem_run_literal (text : Array Char) (word : String) (cursor next : Cursor) :
    next ∈ (literal word).run text cursor ↔ ReadsAt text cursor.pos word.toList ∧
      next = { cursor with pos := cursor.pos + word.toList.length } :=
  mem_run_sequence_literal text word.toList cursor next

theorem mem_run_words (text : Array Char) (options : List String) (cursor next : Cursor) :
    next ∈ (words options).run text cursor ↔ ∃ word ∈ options,
      ReadsAt text cursor.pos word.toList ∧
        next = { cursor with pos := cursor.pos + word.toList.length } := by
  unfold words
  induction options with
  | nil => simp [anyOf, run]
  | cons word rest ih =>
      rw [List.map_cons, run_any_of_cons, List.mem_append, mem_run_literal, ih]
      simp

theorem mem_run_whole_word (text : Array Char) (options : List String) (cursor next : Cursor) :
    next ∈ (wholeWord options).run text cursor ↔ ∃ word ∈ options,
      StandsAt text cursor.pos word ∧
        next = { cursor with pos := cursor.pos + word.toList.length } := by
  unfold wholeWord
  rw [mem_run_whole, mem_run_words]
  constructor
  · rintro ⟨opens, ⟨word, listed, reads, same⟩, closes⟩
    subst same
    exact ⟨word, listed, ⟨opens, reads, closes⟩, rfl⟩
  · rintro ⟨word, listed, stands, same⟩
    subst same
    exact ⟨stands.opens, ⟨word, listed, stands.reads, rfl⟩, stands.closes⟩

/-! One word at a place. -/

/-- A word of lower-case letters. -/
def IsPlain (word : String) : Prop :=
  word.toList ≠ [] ∧ ∀ c ∈ word.toList, c.isLower = true

instance : DecidablePred IsPlain := fun word =>
  @instDecidableAnd (word.toList ≠ []) (∀ c ∈ word.toList, c.isLower = true) inferInstance
    (List.decidableBAll (fun c => c.isLower = true) word.toList)

theorem accepts_literal_class {letter c : Char} (lower : letter.isLower = true) :
    (literalClass letter).accepts c = CharClass.matchesLetter letter c := by
  have range := to_nat_of_is_lower lower
  have alpha : letter.isAlpha = true := Bool.or_eq_true_iff.mpr (.inr lower)
  rw [literalClass, if_pos alpha, to_lower_of_large (by omega)]
  rfl

section Reading

variable {text : Array Char} {pos : Nat} {cs ds : List Char}

theorem ReadsAt.is_word_at (reads : ReadsAt text pos cs) (lower : ∀ c ∈ cs, c.isLower = true)
    {i : Nat} (inside : i < cs.length) : isWordAt text (pos + i) = true := by
  induction cs generalizing pos i with
  | nil => simp at inside
  | cons c cs ih =>
      obtain ⟨⟨d, here, accepted⟩, later⟩ := reads
      cases i with
      | zero =>
          rw [accepts_literal_class (lower c List.mem_cons_self)] at accepted
          rw [Nat.add_zero, Pattern.isWordAt, here]
          exact is_word_char_of_letter (lower c List.mem_cons_self) accepted
      | succ i =>
          have next := ih later (fun e member => lower e (List.mem_cons_of_mem _ member))
            (by simpa using inside)
          rw [Nat.add_comm i, ← Nat.add_assoc]
          exact next

/-- Of two readings of letters from one place the shorter is the start of the longer. -/
theorem ReadsAt.begins (reads : ReadsAt text pos cs) (others : ReadsAt text pos ds)
    (lower : ∀ c ∈ cs, c.isLower = true) (lowerOthers : ∀ d ∈ ds, d.isLower = true)
    (shorter : cs.length ≤ ds.length) : cs <+: ds := by
  induction cs generalizing pos ds with
  | nil => exact List.nil_prefix
  | cons c cs ih =>
      cases ds with
      | nil => simp at shorter
      | cons d ds =>
          obtain ⟨⟨x, here, accepted⟩, later⟩ := reads
          obtain ⟨⟨y, there, acceptedToo⟩, laterToo⟩ := others
          rw [here] at there
          cases there
          rw [accepts_literal_class (lower c List.mem_cons_self)] at accepted
          rw [accepts_literal_class (lowerOthers d List.mem_cons_self)] at acceptedToo
          have same : c = d := letter_unique (lower c List.mem_cons_self)
            (lowerOthers d List.mem_cons_self) accepted acceptedToo
          subst same
          rw [List.prefix_cons_inj]
          exact ih later laterToo (fun e member => lower e (List.mem_cons_of_mem _ member))
            (fun e member => lowerOthers e (List.mem_cons_of_mem _ member)) (by simpa using shorter)

theorem is_edge_between (before : isWordAt text pos = true)
    (after : isWordAt text (pos + 1) = true) :
    isEdge text (pos + 1) = false := by
  simp [isEdge, before, after]

/-- No edge lies inside a reading of letters. -/
theorem ReadsAt.no_edge (reads : ReadsAt text pos cs) (lower : ∀ c ∈ cs, c.isLower = true)
    (place : Nat) (after : pos < place) (inside : place < pos + cs.length) :
    isEdge text place = false := by
  obtain ⟨i, rfl⟩ : ∃ i, place = pos + i + 1 := ⟨place - pos - 1, by omega⟩
  apply is_edge_between
  · exact reads.is_word_at lower (by omega)
  · exact reads.is_word_at (i := i + 1) lower (by omega)

end Reading

section Standing

variable {text : Array Char} {pos : Nat} {a b word : String}

theorem StandsAt.unique (left : StandsAt text pos a) (right : StandsAt text pos b)
    (plainA : IsPlain a) (plainB : IsPlain b) : a = b := by
  have ordered : ∀ {a b : String}, StandsAt text pos a → StandsAt text pos b → IsPlain a →
      IsPlain b → a.toList.length ≤ b.toList.length → a = b := by
    intro a b left right plainA plainB shorter
    have start := left.reads.begins right.reads plainA.2 plainB.2 shorter
    have nonempty := List.length_pos_iff.mpr plainA.1
    have length : a.toList.length = b.toList.length := by
      by_contra differs
      have inside := right.reads.no_edge plainB.2 (pos + a.toList.length)
        (by omega) (by omega)
      rw [left.closes] at inside
      cases inside
    exact String.toList_inj.mp (start.eq_of_length length)
  rcases Nat.le_total a.toList.length b.toList.length with shorter | longer
  · exact ordered left right plainA plainB shorter
  · exact (ordered right left plainB plainA longer).symm

theorem match_at_whole_word {options : List String} {m : Match}
    (found : (wholeWord options).matchAt text pos = Option.some m) :
    ∃ word ∈ options, StandsAt text pos word ∧ m.start = pos ∧
      m.stop = pos + word.toList.length := by
  obtain ⟨cursor, ran, rfl⟩ := matches_at_of_match_at found
  obtain ⟨word, listed, stands, rfl⟩ :=
    (mem_run_whole_word text options ⟨pos, []⟩ cursor).mp ran
  exact ⟨word, listed, stands, rfl, rfl⟩

/-- A word that stands whole is matched by a pattern that lists it. -/
theorem StandsAt.match_at {options : List String} (stands : StandsAt text pos word)
    (listed : word ∈ options) (plain : ∀ option ∈ options, IsPlain option) :
    ∃ m, (wholeWord options).matchAt text pos = Option.some m ∧ m.start = pos ∧
      m.stop = pos + word.toList.length := by
  have reached := (mem_run_whole_word text options ⟨pos, []⟩ _).mpr ⟨word, listed, stands, rfl⟩
  obtain ⟨cursor, first⟩ : ∃ cursor, ((wholeWord options).run text ⟨pos, []⟩).head? =
      Option.some cursor := by
    cases ran : (wholeWord options).run text ⟨pos, []⟩ with
    | nil =>
        rw [ran] at reached
        cases reached
    | cons cursor rest => exact ⟨cursor, rfl⟩
  obtain ⟨other, listedToo, standsToo, same⟩ :=
    (mem_run_whole_word text options ⟨pos, []⟩ cursor).mp (List.mem_of_mem_head? first)
  have one := standsToo.unique stands (plain other listedToo) (plain word listed)
  subst one same
  exact ⟨_, by rw [Pattern.matchAt, first]; rfl, rfl, rfl⟩

theorem ReadsAt.inside {cs : List Char} (reads : ReadsAt text pos cs) (nonempty : cs ≠ []) :
    pos < text.size := by
  cases cs with
  | nil => exact absurd rfl nonempty
  | cons c cs =>
      obtain ⟨⟨d, here, -⟩, -⟩ := reads
      exact (Array.getElem?_eq_some_iff.mp here).1

/-- A plain word stands where the text goes on with a letter. -/
theorem StandsAt.opens_letter (stands : StandsAt text pos word) (plain : IsPlain word) :
    ∃ c, text[pos]? = Option.some c ∧ Text.isDigit c = false ∧ Text.isWordChar c = true := by
  obtain ⟨letter, rest, spelled⟩ := List.exists_cons_of_ne_nil plain.1
  have reads := stands.reads
  rw [spelled] at reads
  obtain ⟨⟨c, found, accepted⟩, -⟩ := reads
  have lower := plain.2 letter (by rw [spelled]; exact List.mem_cons_self)
  rw [accepts_literal_class lower] at accepted
  exact ⟨c, found, is_digit_of_letter lower accepted, is_word_char_of_letter lower accepted⟩

end Standing

/-! Searches. -/

/-- A match is found by a search from a place before it if the matches in between are not empty and
none reaches into it. -/
theorem mem_find_from {text : Array Char} {p : Pattern} {m : Match} {fuel pos : Nat}
    (matched : p.matchAt text m.start = Option.some m) (ahead : pos ≤ m.start)
    (inside : m.start ≤ text.size) (enough : m.start - pos < fuel)
    (clear : ∀ place, pos ≤ place → place < m.start → ∀ n, p.matchAt text place = Option.some n →
      place < n.stop ∧ n.stop ≤ m.start) : m ∈ findFrom text p fuel pos := by
  induction fuel generalizing pos with
  | zero => omega
  | succ fuel ih =>
      rw [findFrom, if_neg (by omega)]
      by_cases here : pos = m.start
      · subst here
        simp only [matched]
        split
        · exact List.mem_cons_self
        · split
          · exact List.mem_cons_self
          · exact List.mem_cons_self
      · split
        · apply ih (by omega) (by omega)
          intro place after
          exact clear place (by omega)
        · rename_i n found
          obtain ⟨filled, before⟩ := clear pos (Nat.le_refl _) (by omega) n found
          rw [if_pos filled]
          apply List.mem_cons_of_mem
          apply ih before (by omega)
          intro place after
          exact clear place (by omega)

/-- A word that stands whole is found by a search for words. -/
theorem StandsAt.mem_find_all {text : Array Char} {pos : Nat} {word : String}
    {options : List String} (stands : StandsAt text pos word) (listed : word ∈ options)
    (plain : ∀ option ∈ options, IsPlain option) :
    ∃ m ∈ (wholeWord options).findAll text, m.start = pos ∧
      m.stop = pos + word.toList.length := by
  obtain ⟨m, matched, start, stop⟩ := stands.match_at listed plain
  have inside := stands.reads.inside (plain word listed).1
  refine ⟨m, ?_, start, stop⟩
  rw [← start] at matched
  apply mem_find_from matched (Nat.zero_le _) (by omega) (by omega)
  intro place _ before n found
  obtain ⟨other, listedToo, standsToo, -, reached⟩ := match_at_whole_word found
  have letters := List.length_pos_iff.mpr (plain other listedToo).1
  refine ⟨by omega, ?_⟩
  by_contra reaches
  have blocked := standsToo.reads.no_edge (plain other listedToo).2 m.start before
    (by omega)
  rw [start, stands.opens] at blocked
  cases blocked

end Reckon.Pattern

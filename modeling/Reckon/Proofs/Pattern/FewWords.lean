import Reckon.Proofs.Pattern.WholeWords

/-!
# Patterns that read one of few words

Choices and optional parts make a pattern that reads one of a few words. Between edges such a
pattern matches where one of the words stands.
-/

set_option autoImplicit false

namespace Reckon.Pattern

/-- Every match of a pattern reads one of some words and ends behind it. -/
def OneOf (options : List String) (p : Pattern) : Prop :=
  ∀ text cursor next, next ∈ p.run text cursor → ∃ word ∈ options,
    ReadsAt text cursor.pos word.toList ∧ next.pos = cursor.pos + word.toList.length

section OneOf

variable {options others : List String} {p q : Pattern}

theorem OneOf.mono (one : OneOf options p) (more : ∀ word ∈ options, word ∈ others) :
    OneOf others p := by
  intro text cursor next reached
  obtain ⟨word, listed, reads, stop⟩ := one text cursor next reached
  exact ⟨word, more word listed, reads, stop⟩

theorem one_of_literal (word : String) : OneOf [word] (literal word) := by
  intro text cursor next reached
  obtain ⟨reads, rfl⟩ := (mem_run_literal text word cursor next).mp reached
  exact ⟨word, List.mem_singleton_self word, reads, rfl⟩

theorem reads_at_append_iff {text : Array Char} {pos : Nat} {cs ds : List Char} :
    ReadsAt text pos (cs ++ ds) ↔ ReadsAt text pos cs ∧ ReadsAt text (pos + cs.length) ds := by
  induction cs generalizing pos with
  | nil => simp [ReadsAt]
  | cons c cs ih =>
      have place : pos + 1 + cs.length = pos + (cs.length + 1) := by omega
      simp only [List.cons_append, ReadsAt, ih, List.length_cons, place, and_assoc]

theorem OneOf.seq (first : OneOf options p) (second : OneOf others q) :
    OneOf (options.flatMap fun word => others.map (word ++ ·)) (seq p q) := by
  intro text cursor next reached
  obtain ⟨middle, start, rest⟩ := List.mem_flatMap.mp reached
  obtain ⟨word, listed, reads, there⟩ := first text cursor middle start
  obtain ⟨other, listedToo, readsToo, stop⟩ := second text middle next rest
  refine ⟨word ++ other, List.mem_flatMap.mpr ⟨word, listed, List.mem_map_of_mem listedToo⟩, ?_, ?_⟩
  · rw [String.toList_append]
    exact reads_at_append_iff.mpr ⟨reads, there ▸ readsToo⟩
  · rw [String.toList_append, List.length_append]
    omega

theorem OneOf.optional (one : OneOf options p) : OneOf ("" :: options) (optional p) := by
  intro text cursor next reached
  rcases mem_run_optional reached with rfl | here
  · exact ⟨"", List.mem_cons_self, trivial, rfl⟩
  · obtain ⟨word, listed, reads, stop⟩ := one text cursor next here
    exact ⟨word, List.mem_cons_of_mem _ listed, reads, stop⟩

theorem one_of_any_of {ps : List Pattern} (each : ∀ p ∈ ps, OneOf options p) :
    OneOf options (anyOf ps) := by
  induction ps with
  | nil =>
      intro text cursor next reached
      simp [anyOf, run] at reached
  | cons p rest ih =>
      intro text cursor next reached
      rw [run_any_of_cons, List.mem_append] at reached
      rcases reached with here | later
      · exact each p List.mem_cons_self text cursor next here
      · exact ih (fun q member => each q (List.mem_cons_of_mem _ member)) text cursor next later

theorem one_of_words (options : List String) : OneOf options (words options) := by
  intro text cursor next reached
  obtain ⟨word, listed, reads, rfl⟩ := (mem_run_words text options cursor next).mp reached
  exact ⟨word, listed, reads, rfl⟩

theorem OneOf.stands (one : OneOf options p) {text : Array Char} {pos : Nat} {m : Match}
    (found : (whole p).matchAt text pos = Option.some m) :
    ∃ word ∈ options, StandsAt text pos word ∧ m.stop = pos + word.toList.length := by
  obtain ⟨next, reached, rfl⟩ := matches_at_of_match_at found
  obtain ⟨opens, matched, closes⟩ := (mem_run_whole text p ⟨pos, []⟩ next).mp reached
  obtain ⟨word, listed, reads, stop⟩ := one text ⟨pos, []⟩ next matched
  exact ⟨word, listed, ⟨opens, reads, stop ▸ closes⟩, stop⟩

end OneOf

theorem le_of_match_at {text : Array Char} {p : Pattern} {pos : Nat} {m : Match}
    (found : p.matchAt text pos = Option.some m) : pos ≤ m.stop := by
  obtain ⟨begins, forward, -⟩ := match_at_range text p pos m found
  omega

section Heads

variable {text : Array Char} {pos : Nat} {word rest : String}

theorem StandsAt.first (stands : StandsAt text pos (word ++ (" " ++ rest))) (plain : IsPlain word) :
    StandsAt text pos word := by
  have reads := stands.reads
  rw [String.toList_append, String.toList_append, show " ".toList = [' '] from rfl] at reads
  obtain ⟨start, later⟩ := reads_at_append_iff.mp reads
  obtain ⟨⟨space, here, accepted⟩, -⟩ := later
  have positive := List.length_pos_iff.mpr plain.1
  have last := start.is_word_at plain.2 (i := word.toList.length - 1) (by omega)
  have mark : space = ' ' := by simpa [literalClass, CharClass.accepts] using accepted
  have outside : isWordAt text (pos + word.toList.length) = false := by
    rw [isWordAt, here, mark]
    decide
  refine ⟨stands.opens, start, ?_⟩
  rw [isEdge, show pos + word.toList.length - 1 = pos + (word.toList.length - 1) by omega,
    last, outside, bne_iff_ne.mpr (show pos + word.toList.length ≠ 0 by omega)]
  rfl

def StandsIn (words : List String) (text : Array Char) (pos : Nat) : Prop :=
  ∃ word ∈ words, StandsAt text pos word

theorem StandsIn.apart {words others : List String} (here : StandsIn words text pos)
    (there : StandsIn others text pos) (plain : ∀ word ∈ words ++ others, IsPlain word)
    (disjoint : ∀ word ∈ words, word ∉ others) : False := by
  obtain ⟨word, listed, stands⟩ := here
  obtain ⟨other, listedToo, standsToo⟩ := there
  have same := stands.unique standsToo (plain word (List.mem_append_left _ listed))
    (plain other (List.mem_append_right _ listedToo))
  exact disjoint word listed (same ▸ listedToo)

end Heads

end Reckon.Pattern

import Reckon.Proofs.Pattern.WholeWords

/-!
# What a pattern reads first

Many patterns begin with one of a few words, whatever follows. Such a pattern cannot match where
another word stands, unless one of the two begins with the other.
-/

set_option autoImplicit false

namespace Reckon.Pattern

/-- Every match of a pattern reads one of some words first. -/
def Leads (heads : List String) (p : Pattern) : Prop :=
  ∀ text cursor next, next ∈ p.run text cursor →
    ∃ head ∈ heads, ReadsAt text cursor.pos head.toList

section Leads

variable {heads : List String} {p q : Pattern} {rest : List Pattern}

theorem leads_literal {word : String} (listed : word ∈ heads) : Leads heads (literal word) := by
  intro text cursor next reached
  exact ⟨word, listed, ((mem_run_literal text word cursor next).mp reached).1⟩

theorem leads_words (options : List String) : Leads options (words options) := by
  intro text cursor next reached
  obtain ⟨word, listed, reads, -⟩ := (mem_run_words text options cursor next).mp reached
  exact ⟨word, listed, reads⟩

theorem leads_seq (leads : Leads heads p) : Leads heads (seq p q) := by
  intro text cursor next reached
  obtain ⟨middle, first, -⟩ := List.mem_flatMap.mp reached
  exact leads text cursor middle first

theorem leads_sequence (leads : Leads heads p) : Leads heads (sequence (p :: rest)) := by
  intro text cursor next reached
  rw [run_sequence_cons] at reached
  obtain ⟨middle, first, -⟩ := List.mem_flatMap.mp reached
  exact leads text cursor middle first

theorem leads_any_of {ps : List Pattern} (each : ∀ p ∈ ps, Leads heads p) :
    Leads heads (anyOf ps) := by
  induction ps with
  | nil =>
      intro text cursor next reached
      simp [anyOf, run] at reached
  | cons p rest ih =>
      intro text cursor next reached
      rw [run_any_of_cons, List.mem_append] at reached
      rcases reached with here | later
      · exact each p List.mem_cons_self text cursor next here
      · exact ih (fun q member => each q (List.mem_cons_of_mem _ member)) text cursor next later

theorem leads_group {index : Nat} (leads : Leads heads p) : Leads heads (group index p) := by
  intro text cursor next reached
  obtain ⟨inner, first, -⟩ := List.mem_map.mp reached
  exact leads text cursor inner first

theorem leads_skip (leads : Leads heads p) (later : Leads heads q) :
    Leads heads (seq (optional p) q) := by
  intro text cursor next reached
  obtain ⟨middle, first, second⟩ := List.mem_flatMap.mp reached
  rcases mem_run_optional first with rfl | here
  · exact later text middle next second
  · exact leads text cursor middle here

end Leads

/-- Every match of a pattern starts at an edge, with one of some words. -/
def StartsWord (heads : List String) (p : Pattern) : Prop :=
  ∀ text cursor next, next ∈ p.run text cursor →
    isEdge text cursor.pos = true ∧ ∃ head ∈ heads, ReadsAt text cursor.pos head.toList

section StartsWord

variable {heads : List String} {p q : Pattern}

theorem starts_word_whole (leads : Leads heads p) : StartsWord heads (whole p) := by
  intro text cursor next reached
  obtain ⟨opens, matched, -⟩ := (mem_run_whole text p cursor next).mp reached
  exact ⟨opens, leads text cursor next matched⟩

theorem starts_word_seq (starts : StartsWord heads p) : StartsWord heads (seq p q) := by
  intro text cursor next reached
  obtain ⟨middle, first, -⟩ := List.mem_flatMap.mp reached
  exact starts text cursor middle first

theorem StartsWord.match_at (starts : StartsWord heads p) {text : Array Char} {pos : Nat}
    {m : Match} (found : p.matchAt text pos = Option.some m) :
    isEdge text pos = true ∧ ∃ head ∈ heads, ReadsAt text pos head.toList := by
  obtain ⟨cursor, reached, -⟩ := matches_at_of_match_at found
  exact starts text ⟨pos, []⟩ cursor reached

end StartsWord

def Differ (a b : String) : Prop :=
  ¬a.toList <+: b.toList ∧ ¬b.toList <+: a.toList

instance (a b : String) : Decidable (Differ a b) :=
  inferInstanceAs (Decidable (¬a.toList <+: b.toList ∧ ¬b.toList <+: a.toList))

/-- No word that differs from one that stands at a place is read there. -/
theorem StandsAt.not_reads {text : Array Char} {pos : Nat} {word head : String}
    (stands : StandsAt text pos word) (plain : IsPlain word) (plainHead : IsPlain head)
    (differ : Differ head word) : ¬ReadsAt text pos head.toList := by
  intro reads
  rcases Nat.le_total head.toList.length word.toList.length with shorter | longer
  · exact differ.1 (reads.begins stands.reads plainHead.2 plain.2 shorter)
  · exact differ.2 (stands.reads.begins reads plain.2 plainHead.2 longer)

end Reckon.Pattern

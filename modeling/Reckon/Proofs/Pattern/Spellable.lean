import Reckon.Proofs.Pattern.Alphabet
import Reckon.Proofs.Pattern.FewWords

/-!
# What a text of few characters can be read as

In a text of few characters most patterns match nowhere: some part that they cannot do without is
spelled with other characters. Of the rest, a pattern that can read a word does so wherever the word
stands.
-/

set_option autoImplicit false

namespace Reckon.Pattern

/-! Characters. -/

/-- Whether a pattern can spell anything with some characters. -/
def spellable (cs : List Char) : Pattern → Bool
  | empty | edge | notAhead _ | notBehind _ => true
  | one cls => cs.any cls.accepts
  | seq first second => spellable cs first && spellable cs second
  | alt first second => spellable cs first || spellable cs second
  | repeated body least _ => least == 0 || spellable cs body
  | group _ body => spellable cs body

theorem Spells.spellable {p : Pattern} {cs ds : List Char} (spells : Spells p ds)
    (known : ∀ d ∈ ds, d ∈ cs) : p.spellable cs = true := by
  induction spells with
  | empty | edge | notAhead | notBehind => rfl
  | @one cls c accepted =>
      exact List.any_eq_true.mpr ⟨c, known c (List.mem_singleton_self c), accepted⟩
  | seq head tail ihHead ihTail =>
      rw [List.forall_mem_append] at known
      simp [Pattern.spellable, ihHead known.1, ihTail known.2]
  | altFirst here ih => simp [Pattern.spellable, ih known]
  | altSecond here ih => simp [Pattern.spellable, ih known]
  | @repeated body least most parts each enough bounded ih =>
      cases parts with
      | nil =>
          have none : least = 0 := by simpa using enough
          simp [Pattern.spellable, none]
      | cons part parts =>
          have first := ih part List.mem_cons_self fun d member =>
            known d (List.mem_flatten.mpr ⟨part, List.mem_cons_self, member⟩)
          simp [Pattern.spellable, first]
  | group here ih => exact ih known

theorem mem_chars_between {text : Array Char} {start stop : Nat} {c : Char}
    (member : c ∈ charsBetween text start stop) : c ∈ text := by
  rw [charsBetween, Array.mem_toList_iff, Array.mem_iff_getElem] at member
  obtain ⟨i, inside, rfl⟩ := member
  rw [Array.getElem_extract]
  exact Array.getElem_mem _

section Texts

variable {text : Array Char} {cs : List Char} {p : Pattern} {pos : Nat}

theorem run_eq_nil_of_spellable (written : ∀ c ∈ text, c ∈ cs) (foreign : p.spellable cs = false)
    (cursor : Cursor) : p.run text cursor = [] := by
  rw [List.eq_nil_iff_forall_not_mem]
  intro next reached
  have able := (run_spells text p cursor next reached).spells.spellable fun c member =>
    written c (mem_chars_between member)
  rw [foreign] at able
  cases able

theorem match_at_eq_none_of_spellable (written : ∀ c ∈ text, c ∈ cs)
    (foreign : p.spellable cs = false) : p.matchAt text pos = none := by
  rw [matchAt, run_eq_nil_of_spellable written foreign]
  rfl

end Texts

/-! Words. -/

/-- Where a text reads a word, a pattern can do so, too. -/
def Offers (word : String) (p : Pattern) : Prop :=
  ∀ text cursor, cursor.pos ≤ text.size → ReadsAt text cursor.pos word.toList →
    ∃ next ∈ p.run text cursor, next.pos = cursor.pos + word.toList.length

section Offers

variable {word other : String} {p q : Pattern}

theorem offers_literal (word : String) : Offers word (literal word) := by
  intro text cursor _ reads
  exact ⟨_, (mem_run_literal text word cursor _).mpr ⟨reads, rfl⟩, rfl⟩

theorem Offers.seq (first : Offers word p) (second : Offers other q) :
    Offers (word ++ other) (seq p q) := by
  intro text cursor inside reads
  rw [String.toList_append] at reads
  obtain ⟨head, tail⟩ := reads_at_append_iff.mp reads
  obtain ⟨middle, start, there⟩ := first text cursor inside head
  have within := (run_reaches text p cursor middle start).2
  rw [Nat.max_eq_right inside] at within
  obtain ⟨next, rest, stop⟩ := second text middle within (by rwa [there])
  refine ⟨next, List.mem_flatMap.mpr ⟨middle, start, rest⟩, ?_⟩
  rw [String.toList_append, List.length_append]
  omega

theorem Offers.optional (offers : Offers word p) : Offers word (optional p) := by
  intro text cursor inside reads
  rw [run_optional text p cursor inside]
  obtain ⟨next, reached, stop⟩ := offers text cursor inside reads
  exact ⟨next, List.mem_append_left _ reached, stop⟩

theorem offers_any_of {ps : List Pattern} (offers : Offers word p) (listed : p ∈ ps) :
    Offers word (anyOf ps) := by
  intro text cursor inside reads
  obtain ⟨next, reached, stop⟩ := offers text cursor inside reads
  refine ⟨next, ?_, stop⟩
  induction ps with
  | nil => cases listed
  | cons q rest ih =>
      rw [run_any_of_cons, List.mem_append]
      rcases List.mem_cons.mp listed with rfl | later
      · exact .inl reached
      · exact .inr (ih later)

/-- Between edges, a pattern that can read a word matches where it stands. -/
theorem Offers.match_at (offers : Offers word p) {text : Array Char} {pos : Nat}
    (stands : StandsAt text pos word) (inside : pos ≤ text.size) :
    ∃ m, (whole p).matchAt text pos = Option.some m := by
  obtain ⟨next, reached, stop⟩ := offers text ⟨pos, []⟩ inside stands.reads
  exact exists_match_at
    ((mem_run_whole text p ⟨pos, []⟩ next).mpr ⟨stands.opens, reached, stop ▸ stands.closes⟩)

end Offers

end Reckon.Pattern

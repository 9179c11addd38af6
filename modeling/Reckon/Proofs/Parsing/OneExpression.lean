import Reckon.Proofs.Parsing.Dropping

/-!
# Texts that are one expression

If a plain reading of some kind spans a text, then it leaves no room for another one of that kind:
the best readings are one mention, which spans the text.
-/

set_option autoImplicit false

namespace Reckon.Parser

open Sequencing

variable {p : Parser} {text : Array Char} {kind : Kind} {entries : List (Entry Value)}
  {notices : List Notice}

theorem bytes_inside (grown : p.rules.apply text = .ok (entries, notices)) {e : Entry Value}
    (member : e ∈ entries) :
    e.node.bytes.start < e.node.bytes.stop ∧
      (Text.byteOffset text 0 : Int) ≤ e.node.bytes.start ∧
        e.node.bytes.stop ≤ Text.byteOffset text text.size ∧
        (e.node.bytes = ⟨Text.byteOffset text 0, Text.byteOffset text text.size⟩ ↔
          e.node.chars = ⟨0, text.size⟩) := by
  obtain ⟨start, stop, covers⟩ := Forest.derives_covers (RuleSet.apply_sound grown e member)
  have nonempty := covers.nonempty
  have inside := covers.inside
  have bytes : e.node.bytes = ⟨Text.byteOffset text start, Text.byteOffset text stop⟩ :=
    covers.bytes
  have forward := Text.byte_offset_lt text nonempty inside
  have first := (Text.byte_offset_le_iff text (Nat.zero_le _) (by omega)).mpr (Nat.zero_le start)
  have last := (Text.byte_offset_le_iff text inside (le_refl _)).mpr inside
  have starts : Text.byteOffset text start ≤ Text.byteOffset text 0 ↔ start ≤ 0 :=
    Text.byte_offset_le_iff text (by omega) (by omega)
  have stops : Text.byteOffset text text.size ≤ Text.byteOffset text stop ↔ text.size ≤ stop :=
    Text.byte_offset_le_iff text (le_refl _) inside
  rw [bytes, covers.chars]
  simp only [Span.mk.injEq]
  omega

theorem candidates_whole (distinct : p.rules.ruleNames.Nodup)
    (grown : p.rules.apply text = .ok (entries, notices))
    (dimensions : ∀ e ∈ entries, e.node.value.dimension?.isSome = true)
    (spans : ∃ e ∈ entries, e.node.chars = ⟨0, text.size⟩ ∧
      e.node.value.dimension? = some kind.dimension ∧ e.node.value.latent = false) :
    ∃ c, p.candidates text [kind] .bestOnly = .ok ([c], notices) ∧
      c.node.chars = ⟨0, text.size⟩ ∧ Reads [kind] entries c := by
  obtain ⟨found, candidates, -⟩ := candidates_return distinct grown dimensions [kind] .bestOnly
  obtain ⟨nodes, scored, tagged⟩ := (candidates_ok_iff _ _).mp candidates
  obtain ⟨_, again, same⟩ := scored_return distinct grown
  rw [scored] at again
  cases again
  have listed : ∀ s ∈ nodes, ∃ e ∈ entries, e.node = s.node :=
    fun s member => (same s.node).mp ⟨s, member, rfl⟩
  have within : ∀ s ∈ nodes, s.node.bytes.start < s.node.bytes.stop ∧
      (Text.byteOffset text 0 : Int) ≤ s.node.bytes.start ∧
        s.node.bytes.stop ≤ Text.byteOffset text text.size := by
    intro s member
    obtain ⟨e, inside, node⟩ := listed s member
    obtain ⟨nonempty, start, stop, -⟩ := bytes_inside grown inside
    rw [← node]
    exact ⟨nonempty, start, stop⟩
  have whole : ∃ s ∈ nodes, Selection.isEligible .bestOnly [kind] s = true ∧
      s.node.bytes = ⟨Text.byteOffset text 0, Text.byteOffset text text.size⟩ := by
    obtain ⟨e, inside, chars, dimension, plain⟩ := spans
    obtain ⟨s, member, node⟩ := (same e.node).mpr ⟨e, inside, rfl⟩
    refine ⟨s, member, (Selection.is_eligible_iff _ _ _).mpr ⟨⟨kind, by simp, ?_⟩, .inr ?_⟩, ?_⟩
    · rw [Scored.kind?, node, dimension]
      exact (Kind.of_dimension?_eq_some_iff _ _).mpr rfl
    · rw [node, plain]
    · rw [node]
      exact (bytes_inside grown inside).2.2.2.mpr chars
  obtain ⟨c, rfl, bytes⟩ := Selection.tag_whole tagged within whole
  obtain ⟨_, again, reads, -⟩ := candidates_read candidates
  rw [grown] at again
  cases again
  have read := reads c (List.mem_singleton_self c)
  obtain ⟨e, inside, node⟩ := read.node
  rw [← node] at bytes
  exact ⟨c, candidates, by rw [← node]; exact (bytes_inside grown inside).2.2.2.mp bytes, read⟩

/-- If all readings of a kind that span the text come out alike, and one of them is plain, then the
text is parsed as one mention. -/
theorem parse_whole (distinct : p.rules.ruleNames.Nodup)
    (grown : p.rules.apply text = .ok (entries, notices))
    (dimensions : ∀ e ∈ entries, e.node.value.dimension?.isSome = true)
    (spans : ∃ e ∈ entries, e.node.chars = ⟨0, text.size⟩ ∧
      e.node.value.dimension? = some kind.dimension ∧ e.node.value.latent = false)
    {context : Context} {output : Output}
    (alike : ∀ e ∈ entries, e.node.chars = ⟨0, text.size⟩ →
      e.node.value.dimension? = some kind.dimension →
        e.node.value.resolve kind context = .ok output) :
    ∃ m, p.parse text context [kind] .bestOnly = .ok ([m], notices) ∧
      m.LiesAt text 0 text.size ∧ m.output = output := by
  obtain ⟨c, candidates, chars, read⟩ := candidates_whole distinct grown dimensions spans
  obtain ⟨e, inside, node⟩ := read.node
  have own : c.kind = kind := List.mem_singleton.mp read.wanted
  have dimension := read.dimension
  rw [own, ← node] at dimension
  have resolved : c.node.value.resolve c.kind context = .ok output := by
    rw [own, ← node]
    exact alike e inside (by rw [node, chars]) dimension
  have droppable : ∀ d ∈ [c], Droppable context d := by
    intro d member failure failed
    rw [List.mem_singleton.mp member, resolved] at failed
    cases failed
  have returned := parse_of_droppable candidates droppable
  have derives : Forest.Derives p.rules text c.node := by
    rw [← node]
    exact RuleSet.apply_sound grown e inside
  obtain ⟨start, stop, lies⟩ : ∃ start stop, (mentionOf c output).LiesAt text start stop :=
    mention_lies derives
  have place := lies.chars
  rw [show (mentionOf c output).chars = ⟨0, text.size⟩ from chars] at place
  injection place with starts stops
  obtain rfl : start = 0 := by omega
  obtain rfl : stop = text.size := by omega
  refine ⟨mentionOf c output, ?_, lies, rfl⟩
  have mentions : mention? context c = some (mentionOf c output) := by
    simp only [mention?, resolved]
  have drops : drop? context text c = none := by
    simp only [drop?, resolved]
  rw [returned]
  simp [mentions, drops]

end Reckon.Parser

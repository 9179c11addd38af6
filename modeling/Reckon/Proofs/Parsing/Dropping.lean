import Reckon.Proofs.Parsing.Exhaustive
import Reckon.Proofs.Scoring.TreeScore

/-!
# When a parse returns

A forest of values with dimensions can always be scored and selected from. The parse of it returns
if each candidate resolves or fails only so that it is dropped; it then reports the candidates that
resolve and has a notice for each of the others. Any other failure of a candidate is that of the
whole parse.
-/

set_option autoImplicit false

namespace Reckon

open Sequencing

namespace Parser

variable {p : Parser} {text : Array Char} {context : Context} {order : List Kind}
  {mode : Selection}

theorem scored_return (distinct : p.rules.ruleNames.Nodup) {entries : List (Entry Value)}
    {notices : List Notice} (grown : p.rules.apply text = .ok (entries, notices)) :
    ∃ nodes, p.scored text = .ok (nodes, notices) ∧
      ∀ node, (∃ s ∈ nodes, s.node = node) ↔ ∃ e ∈ entries, e.node = node := by
  obtain ⟨k, exhausts, -, -⟩ := RuleSet.apply_exact distinct grown
  have scored := p.model.scores_linked exhausts.linked
  refine ⟨_, (bind_ok_iff _ _ _).mpr ⟨_, grown, (bind_ok_iff _ _ _).mpr ⟨_, scored, rfl⟩⟩, ?_⟩
  intro node
  rw [← List.map_prod_left_eq_zip]
  simp

/-- Candidates can be selected from every forest whose values have dimensions; they stand for nodes
of the forest, under the kinds of these. -/
theorem candidates_return (distinct : p.rules.ruleNames.Nodup) {entries : List (Entry Value)}
    {notices : List Notice} (grown : p.rules.apply text = .ok (entries, notices))
    (dimensions : ∀ e ∈ entries, e.node.value.dimension?.isSome = true) (order : List Kind)
    (mode : Selection) :
    ∃ found, p.candidates text order mode = .ok (found, notices) ∧
      ∀ c ∈ found, (∃ e ∈ entries, e.node = c.node) ∧
        c.node.value.dimension? = some c.kind.dimension := by
  obtain ⟨nodes, scored, same⟩ := scored_return distinct grown
  have listed : ∀ s ∈ nodes, ∃ e ∈ entries, e.node = s.node :=
    fun s member => (same s.node).mp ⟨s, member, rfl⟩
  have proper : ∀ s ∈ nodes, s.node.bytes.start ≤ s.node.bytes.stop := by
    intro s member
    obtain ⟨e, inside, node⟩ := listed s member
    obtain ⟨start, stop, covers⟩ := Forest.derives_covers (RuleSet.apply_sound grown e inside)
    have forward := Text.byte_offset_lt text covers.nonempty covers.inside
    have bytes : e.node.bytes = ⟨Text.byteOffset text start, Text.byteOffset text stop⟩ :=
      covers.bytes
    rw [← node, bytes]
    simp only
    omega
  obtain ⟨found, tagged⟩ := Selection.tag_returns mode order _ proper fun s member => by
    obtain ⟨e, inside, node⟩ := listed s member
    rw [← node]
    exact dimensions e inside
  refine ⟨found, (candidates_ok_iff found notices).mpr ⟨_, scored, tagged⟩, ?_⟩
  intro c member
  obtain ⟨s, source, node, known⟩ := Selection.source_of_mem tagged member
  obtain ⟨e, inside, alike⟩ := listed s source
  obtain ⟨dimension, here, reported⟩ := Option.bind_eq_some_iff.mp known
  refine ⟨⟨e, inside, alike.trans node⟩, ?_⟩
  rw [← node, here, (Kind.of_dimension?_eq_some_iff dimension c.kind).mp reported]

def dropOf (text : Array Char) (c : Candidate) (failure : Failure) : Notice :=
  .dropped c.kind.label
    (String.ofList (Pattern.charsBetween text c.node.chars.start.toNat c.node.chars.stop.toNat))
    (failure.message.getD "")

def drop? (context : Context) (text : Array Char) (c : Candidate) : Option Notice :=
  match c.node.value.resolve c.kind context with
  | .ok _ => none
  | .error failure => some (dropOf text c failure)

/-- Every failure of a candidate only drops it. -/
def Droppable (context : Context) (c : Candidate) : Prop :=
  ∀ failure, c.node.value.resolve c.kind context = .error failure → isDroppable failure = true

theorem report_droppable {c : Candidate} (droppable : Droppable context c) :
    ∃ outcome, report context text c = .ok outcome ∧
      outcome.getLeft? = mention? context c ∧ outcome.getRight? = drop? context text c := by
  cases resolved : c.node.value.resolve c.kind context with
  | ok output =>
      refine ⟨.inl (mentionOf c output), ?_, ?_, ?_⟩
      · simp only [report, resolved]
      · simp only [mention?, resolved, Sum.getLeft?_inl]
      · simp only [drop?, resolved, Sum.getRight?_inl]
  | error failure =>
      refine ⟨.inr (dropOf text c failure), ?_, ?_, ?_⟩
      · simp only [report, resolved, droppable failure resolved, if_true]
        rfl
      · simp only [mention?, resolved, Sum.getLeft?_inr]
      · simp only [drop?, resolved, Sum.getRight?_inr]

theorem reports_droppable (text : Array Char) {found : List Candidate}
    (droppable : ∀ c ∈ found, Droppable context c) :
    ∃ reports, found.mapM (report context text) = .ok reports ∧
      reports.filterMap Sum.getLeft? = found.filterMap (mention? context) ∧
      reports.filterMap Sum.getRight? = found.filterMap (drop? context text) := by
  induction found with
  | nil => exact ⟨[], rfl, rfl, rfl⟩
  | cons c rest ih =>
      obtain ⟨outcome, head, left, right⟩ :=
        report_droppable (droppable c List.mem_cons_self)
      obtain ⟨reports, tail, mentions, drops⟩ :=
        ih fun other member => droppable other (List.mem_cons_of_mem _ member)
      refine ⟨outcome :: reports, ?_, ?_, ?_⟩
      · rw [List.mapM_cons, head, tail]
        rfl
      · rw [List.filterMap_cons, List.filterMap_cons, left, mentions]
      · rw [List.filterMap_cons, List.filterMap_cons, right, drops]

/-- If failures only drop candidates, then the parse returns: it mentions what resolves, and has one
notice for each candidate that does not. -/
theorem parse_of_droppable {found : List Candidate} {notices : List Notice}
    (candidates : p.candidates text order mode = .ok (found, notices))
    (droppable : ∀ c ∈ found, Droppable context c) :
    p.parse text context order mode =
      .ok ((found.filterMap (mention? context)).mergeSort (reportedBefore order),
        notices ++ found.filterMap (drop? context text)) := by
  obtain ⟨reports, ran, mentions, drops⟩ := reports_droppable text droppable
  refine (bind_ok_iff _ _ _).mpr ⟨_, candidates, (bind_ok_iff _ _ _).mpr ⟨reports, ran, ?_⟩⟩
  rw [mentions, drops]
  rfl

/-- A failure that does not only drop its candidate is one of the parse. -/
theorem parse_of_not_droppable {found : List Candidate} {notices : List Notice}
    (candidates : p.candidates text order mode = .ok (found, notices)) {c : Candidate}
    (member : c ∈ found) (severe : ¬Droppable context c) :
    ∃ d ∈ found, ∃ failure, d.node.value.resolve d.kind context = .error failure ∧
      isDroppable failure = false ∧ p.parse text context order mode = .error failure := by
  have fails : ∃ d ∈ found, ∃ failure, report context text d = .error failure := by
    simp only [Droppable, not_forall] at severe
    obtain ⟨failure, failed, severe⟩ := severe
    exact ⟨c, member, failure, by simp only [report, failed, if_neg severe]⟩
  obtain ⟨d, inside, failure, failed, ran⟩ := map_m_fails (report context text) found fails
  refine ⟨d, inside, failure, ?_⟩
  have own : d.node.value.resolve d.kind context = .error failure ∧
      isDroppable failure = false := by
    unfold report at failed
    split at failed
    · cases failed
    · rename_i cause resolved
      split at failed
      · cases failed
      · rename_i severe
        cases failed
        exact ⟨resolved, by simpa using severe⟩
  refine ⟨own.1, own.2, (bind_error_iff _ _ _).mpr (.inr ⟨_, candidates, ?_⟩)⟩
  exact (bind_error_iff _ _ _).mpr (.inl ran)

end Parser

end Reckon

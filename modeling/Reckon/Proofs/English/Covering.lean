import Mathlib
import Reckon.Coverage
import Reckon.Proofs.Forest.Ends
import Reckon.Proofs.Forest.Listed
import Reckon.Proofs.Parsing.BestOnly
import Reckon.Proofs.Parsing.Exhaustive

/-!
# When a text is covered

English trees begin and end with characters that are neither white space nor commas, so no mention
reaches into the white space around a text. A mention that spans the rest leaves no room for another
one; so a text is covered exactly if it is read as one expression.
-/

set_option autoImplicit false

namespace Reckon

open Sequencing

namespace Span

variable {a b : Span}

theorem contains_iff : a.contains b = true ↔ a.start ≤ b.start ∧ b.stop ≤ a.stop := by
  rw [contains, Bool.and_eq_true, decide_eq_true_iff, decide_eq_true_iff]

theorem contains_antisymm (outer : a.contains b = true) (inner : b.contains a = true) : a = b := by
  obtain ⟨start, stop⟩ := contains_iff.mp outer
  obtain ⟨start', stop'⟩ := contains_iff.mp inner
  cases a
  cases b
  rw [Span.mk.injEq]
  exact ⟨Int.le_antisymm start start', Int.le_antisymm stop' stop⟩

end Span

def bodySpan (text : String) : Span :=
  ⟨Text.leadingTrimmed text.toList,
    (Text.leadingTrimmed text.toList : Int) + (Text.trim text.toList).length⟩

namespace Parser

section Tight

variable {p : Parser} {text : String} {context : Context} {order : List Kind}
  {mentions : List Mention} {notices : List Notice}

theorem mentions_in_body (tight : ∀ r ∈ p.rules.rules, r.isTight = true)
    (ran : p.parse text.toList.toArray context order .bestOnly = .ok (mentions, notices)) :
    (∀ m ∈ mentions, (∃ start stop, m.LiesAt text.toList.toArray start stop) ∧
      (bodySpan text).contains m.chars = true) ∧
      mentions.Pairwise fun a b => a.bytes.overlaps b.bytes = false := by
  obtain ⟨found, forestNotices, drops, candidates, made, -, -, -⟩ := parse_ok ran
  obtain ⟨entries, grown, reads, apart⟩ := candidates_read candidates
  constructor
  · intro m member
    rw [made] at member
    obtain ⟨c, here, output, -, rfl⟩ := mem_mentions member
    obtain ⟨e, inside, node⟩ := (reads c here).node
    have derives : Forest.Derives p.rules text.toList.toArray c.node := by
      rw [← node]
      exact RuleSet.apply_sound grown e inside
    obtain ⟨start, stop, lies⟩ : ∃ start stop, (mentionOf c output).LiesAt _ start stop :=
      mention_lies derives
    refine ⟨⟨start, stop, lies⟩, ?_⟩
    obtain ⟨first, last⟩ := Forest.derives_tight tight derives
    rw [show c.node.chars = ⟨start, stop⟩ from lies.chars] at first last
    have opens := ink_inside first
    have closes := ink_inside last
    have nonempty := lies.nonempty
    rw [lies.chars, Span.contains_iff, bodySpan]
    simp only [Int.toNat_natCast] at opens closes ⊢
    omega
  · rw [made]
    exact mentions_apart apart

theorem mentions_eq_singleton (tight : ∀ r ∈ p.rules.rules, r.isTight = true)
    (ran : p.parse text.toList.toArray context order .bestOnly = .ok (mentions, notices))
    {m : Mention} (member : m ∈ mentions) (whole : m.chars = bodySpan text) : mentions = [m] := by
  obtain ⟨inside, apart⟩ := mentions_in_body tight ran
  obtain ⟨⟨start, stop, lies⟩, -⟩ := inside m member
  have covers : ∀ other ∈ mentions, other.bytes.overlaps m.bytes = true := by
    intro other present
    obtain ⟨⟨first, last, lain⟩, within⟩ := inside other present
    rw [← whole, lies.chars, lain.chars, Span.contains_iff] at within
    simp only at within
    have nonempty := lain.nonempty
    have ends := lain.inside
    have upper := Text.byte_offset_lt _ (by omega : first < stop) lies.inside
    have lower := Text.byte_offset_lt _ (by omega : start < last) ends
    rw [lain.bytes, lies.bytes, Span.overlaps, Bool.and_eq_true, decide_eq_true_iff,
      decide_eq_true_iff]
    exact ⟨Int.ofNat_lt.mpr upper, Int.ofNat_lt.mpr lower⟩
  obtain ⟨before, after, rfl⟩ := List.append_of_mem member
  obtain ⟨-, later, clash⟩ := List.pairwise_append.mp apart
  have none_before : before = [] := by
    refine List.eq_nil_iff_forall_not_mem.mpr fun other present => ?_
    have clear := clash other present m List.mem_cons_self
    rw [covers other (List.mem_append_left _ present)] at clear
    cases clear
  have none_after : after = [] := by
    refine List.eq_nil_iff_forall_not_mem.mpr fun other present => ?_
    have clear := List.rel_of_pairwise_cons later present
    rw [Span.overlaps_comm, covers other (by simp [present])] at clear
    cases clear
  rw [none_before, none_after, List.nil_append]

/-- A text that tight rules were applied to is covered exactly if it is read as one mention, of all
of it but the white space around it. -/
theorem is_covered_iff (tight : ∀ r ∈ p.rules.rules, r.isTight = true)
    (ran : p.parse text.toList.toArray context order .bestOnly = .ok (mentions, notices)) :
    (Annotated.mk text mentions).isCovered = true ↔
      ∃ m, mentions = [m] ∧ m.chars = bodySpan text := by
  obtain ⟨inside, -⟩ := mentions_in_body tight ran
  constructor
  · intro covered
    obtain ⟨m, member, spans⟩ : ∃ m ∈ mentions, m.chars.contains (bodySpan text) = true := by
      simp only [Annotated.isCovered, Annotated.body?] at covered
      split at covered
      · rename_i body trimmed
        split at trimmed
        · cases trimmed
        · cases trimmed
          exact List.any_eq_true.mp covered
      · cases covered
    have whole := Span.contains_antisymm spans (inside m member).2
    exact ⟨m, mentions_eq_singleton tight ran member whole, whole⟩
  · rintro ⟨m, rfl, whole⟩
    obtain ⟨⟨start, stop, lies⟩, -⟩ := inside m (List.mem_singleton_self m)
    have nonempty := lies.nonempty
    have place := lies.chars
    rw [whole, bodySpan, Span.mk.injEq] at place
    have filled : (Text.trim text.toList).isEmpty = false := by
      rw [List.isEmpty_eq_false_iff, ← List.length_pos_iff]
      omega
    simp [Annotated.isCovered, Annotated.body?, filled, whole, bodySpan, Span.contains]

end Tight

end Parser

namespace English

theorem rules_with_items (readings : Readings) :
    (rulesWith readings).map Rule.items = (rulesWith usualReadings).map Rule.items := rfl

theorem usual_rules_tight : ∀ r ∈ rulesWith usualReadings, r.isTight = true := by
  decide +kernel

theorem rules_with_tight (readings : Readings) : ∀ r ∈ rulesWith readings, r.isTight = true := by
  intro r member
  have items : r.items ∈ (rulesWith usualReadings).map Rule.items := by
    rw [← rules_with_items readings]
    exact List.mem_map_of_mem member
  obtain ⟨other, usual, same⟩ := List.mem_map.mp items
  have tight := usual_rules_tight other usual
  rwa [Rule.isTight, same] at tight

/-- English trees begin and end with a character that is neither trimmed nor a comma, and a text is
covered exactly if it is read as one mention of what is left of it without the white space around
it. -/
theorem covered_iff_one_mention (p : Parser) (readings : Readings)
    (english : p.rules.rules = rulesWith readings) (text : String) (context : Context)
    (order : List Kind) (mentions : List Mention) (notices : List Notice)
    (ran : p.parse text.toList.toArray context order .bestOnly = .ok (mentions, notices)) :
    (∀ node, Forest.Derives p.rules text.toList.toArray node →
      node.Tight text.toList.toArray) ∧
      ((Annotated.mk text mentions).isCovered = true ↔
        ∃ m, mentions = [m] ∧ m.chars = bodySpan text) := by
  have tight : ∀ r ∈ p.rules.rules, r.isTight = true := by
    rw [english]
    exact rules_with_tight readings
  exact ⟨fun node derives => Forest.derives_tight tight derives, Parser.is_covered_iff tight ran⟩

theorem six_covered_iff_one_mention : Parser.unweighted.rules.rules = rulesWith usualReadings ∧
    ∃ mentions notices,
      Parser.unweighted.parse "\u001Fsix\t".toList.toArray Context.training [.number] .bestOnly =
        .ok (mentions, notices) ∧
      ((Annotated.mk "\u001Fsix\t" mentions).isCovered = true ↔
        ∃ m, mentions = [m] ∧ m.chars = ⟨1, 4⟩) ∧
      (Annotated.mk "\u001Fsix\t" mentions).isCovered = true := by
  have spans : (Parser.unweighted.parse "\u001Fsix\t".toList.toArray Context.training [.number]
      .bestOnly).toOption.map (fun found => found.1.map (·.chars)) = some [⟨1, 4⟩] := by
    simp only [Parser.parse, Parser.candidates, Parser.scored, RuleSet.apply_eq_listed]
    decide +kernel
  obtain ⟨⟨mentions, notices⟩, ran, one⟩ := exists_ok_of_map spans
  have covered := (covered_iff_one_mention Parser.unweighted usualReadings rfl "\u001Fsix\t"
    Context.training [.number] mentions notices ran).2
  obtain ⟨m, rfl, place⟩ := List.map_eq_singleton_iff.mp one
  exact ⟨rfl, [m], notices, ran, covered, covered.mpr ⟨m, rfl, place⟩⟩

end English

end Reckon

import Reckon.English.Rules
import Reckon.Proofs.Forest.Listed
import Reckon.Proofs.Parsing.BestOnly
import Reckon.Proofs.Selection.Alternatives

/-!
# Best readings among all readings

All readings of a text hold its best readings, except where a reading of an earlier kind was tagged
in the way. Only a latent reading can be new there: it takes part when all readings are wanted, and
bars what it overlaps from the later kinds.
-/

set_option autoImplicit false

namespace Reckon

open Sequencing

/-- Mentions of one range with one meaning. -/
def Mention.Alike (a b : Mention) : Prop :=
  a.bytes = b.bytes ∧ a.chars = b.chars ∧ a.output = b.output

instance (a b : Mention) : Decidable (a.Alike b) :=
  inferInstanceAs (Decidable (a.bytes = b.bytes ∧ a.chars = b.chars ∧ a.output = b.output))

namespace Parser

variable {p : Parser} {text : Array Char} {context : Context} {order : List Kind}
  {mode : Selection}

/-- The modes select from the same scored nodes. -/
theorem candidates_ok_iff (found : List Candidate) (notices : List Notice) :
    p.candidates text order mode = .ok (found, notices) ↔
      ∃ nodes, p.scored text = .ok (nodes, notices) ∧ mode.tag order nodes = .ok found := by
  unfold candidates
  rw [bind_ok_iff]
  constructor
  · rintro ⟨⟨nodes, forestNotices⟩, scored, rest⟩
    obtain ⟨out, tagged, same⟩ := (bind_ok_iff _ _ _).mp rest
    cases same
    exact ⟨nodes, scored, tagged⟩
  · rintro ⟨nodes, scored, tagged⟩
    exact ⟨(nodes, notices), scored, (bind_ok_iff _ _ _).mpr ⟨found, tagged, rfl⟩⟩

/-- The mentions of a parse are those of the candidates that can be resolved. -/
theorem mem_parse_iff {mentions : List Mention} {notices forestNotices : List Notice}
    {found : List Candidate} (ran : p.parse text context order mode = .ok (mentions, notices))
    (candidates : p.candidates text order mode = .ok (found, forestNotices)) (m : Mention) :
    m ∈ mentions ↔ ∃ c ∈ found, ∃ output,
      c.node.value.resolve c.kind context = .ok output ∧ m = mentionOf c output := by
  obtain ⟨_, _, drops, again, made, -⟩ := parse_ok ran
  rw [candidates] at again
  cases again
  rw [made, List.mem_mergeSort, List.mem_filterMap]
  constructor
  · rintro ⟨c, member, resolved⟩
    obtain ⟨output, resolves, same⟩ := mention?_eq_some resolved
    exact ⟨c, member, output, resolves, same⟩
  · rintro ⟨c, member, output, resolves, same⟩
    exact ⟨c, member, by rw [mention?, resolves, same]⟩

/-- A best reading is among all readings exactly if nothing tagged there for an earlier kind
overlaps it, and so at least where nothing latent is tagged for an earlier kind. -/
theorem parse_among_exhaustive (p : Parser) (text : Array Char) (context : Context)
    (order : List Kind) (best all : List Mention) (notices others : List Notice)
    (first : p.parse text context order .bestOnly = .ok (best, notices))
    (second : p.parse text context order .exhaustive = .ok (all, others)) :
    ∃ found forestNotices, p.candidates text order .exhaustive = .ok (found, forestNotices) ∧
      ∀ m ∈ best,
        ((∃ a ∈ all, a.Alike m) ↔ Selection.Clear order found m.kind m.bytes) ∧
          ((∀ t ∈ found, t.tagged = true → order.idxOf t.kind < order.idxOf m.kind →
            t.node.value.latent = false) → ∃ a ∈ all, a.Alike m) := by
  obtain ⟨chosen, forestNotices, -, chose, -⟩ := parse_ok first
  obtain ⟨found, _, -, finds, -⟩ := parse_ok second
  obtain ⟨nodes, scored, tagBest⟩ := (candidates_ok_iff _ _).mp chose
  obtain ⟨_, again, tagAll⟩ := (candidates_ok_iff _ _).mp finds
  rw [scored] at again
  cases again
  refine ⟨found, forestNotices, finds, ?_⟩
  intro m member
  obtain ⟨c, inside, output, resolves, rfl⟩ := (mem_parse_iff first chose m).mp member
  obtain ⟨-, kind, -⟩ := Value.resolve_ok resolves
  have own : (mentionOf c output).kind = c.kind := kind
  have readable : (∃ a ∈ all, a.Alike (mentionOf c output)) ↔
      Selection.Clear order found (mentionOf c output).kind (mentionOf c output).bytes := by
    constructor
    · rintro ⟨a, listed, bytes, -, outputs⟩
      obtain ⟨d, kept, other, resolvesToo, rfl⟩ := (mem_parse_iff second finds a).mp listed
      obtain ⟨-, kindToo, -⟩ := Value.resolve_ok resolvesToo
      have same : d.kind = (mentionOf c output).kind := by
        rw [← kindToo, show other = output from outputs]
        rfl
      obtain ⟨-, -, -, clear⟩ := (Selection.tag_readings tagAll ⟨d.node, d.score⟩ d.kind).mp
        (List.mem_map_of_mem kept)
      rw [← same, ← bytes]
      exact clear
    · intro clear
      obtain ⟨s, scoredNode, node, score, known, eligible⟩ :=
        Selection.tagged_source tagBest c inside (Selection.tag_all_tagged tagBest c inside)
      obtain ⟨⟨_, inOrder, knownToo⟩, -⟩ := (Selection.is_eligible_iff _ _ _).mp eligible
      rw [known] at knownToo
      cases knownToo
      rw [own] at clear
      have kept : (s, c.kind) ∈ found.map Selection.reading :=
        (Selection.tag_readings tagAll s c.kind).mpr
          ⟨inOrder, scoredNode, known, by rw [node]; exact clear⟩
      obtain ⟨d, listed, same⟩ := List.mem_map.mp kept
      obtain ⟨source, kinds⟩ := Prod.mk.inj same
      have sameNode : d.node = c.node := by
        rw [← node, ← source]
      refine ⟨mentionOf d output, (mem_parse_iff second finds _).mpr ⟨d, listed, output, ?_, rfl⟩,
        congrArg Node.bytes sameNode, congrArg Node.chars sameNode, rfl⟩
      rw [sameNode, kinds]
      exact resolves
  refine ⟨readable, fun plain => readable.mpr ?_⟩
  rw [own] at plain ⊢
  exact Selection.clear_of_plain tagBest tagAll inside plain

def unweighted : Parser where
  rules := English.ruleSet
  model := ⟨⟨0, [], 10⟩, false, "", none⟩

def readingsOfFive (mode : Selection) : Option (List (Span × Output)) :=
  (unweighted.parse #['5'] Context.training [.temperature, .number] mode).toOption.map fun found =>
    found.1.map fun m => (m.bytes, m.output)

theorem readings_of_five_eq_some {rows : List (Span × Output)}
    (read : readingsOfFive mode = some rows) :
    ∃ mentions notices,
      unweighted.parse #['5'] Context.training [.temperature, .number] mode =
        .ok (mentions, notices) ∧ mentions.map (fun m => (m.bytes, m.output)) = rows := by
  obtain ⟨⟨mentions, notices⟩, returned, listed⟩ := exists_ok_of_map read
  exact ⟨mentions, notices, returned, listed⟩

theorem readings_of_five_best_only : readingsOfFive .bestOnly = some [(⟨0, 1⟩, .integer 5)] := by
  simp only [readingsOfFive, parse, candidates, scored, RuleSet.apply_eq_listed]
  decide +kernel

theorem readings_of_five_exhaustive : readingsOfFive .exhaustive =
    some [(⟨0, 1⟩, .temperature (Binary64.ofRatio false 5 1) none)] := by
  simp only [readingsOfFive, parse, candidates, scored, RuleSet.apply_eq_listed]
  decide +kernel

/-- The latent temperature bars the number, which is the best reading. -/
theorem five_not_among_exhaustive : ∃ best all notices others,
    unweighted.parse #['5'] Context.training [.temperature, .number] .bestOnly =
      .ok (best, notices) ∧
    unweighted.parse #['5'] Context.training [.temperature, .number] .exhaustive =
      .ok (all, others) ∧
    ∃ m ∈ best, m.output = .integer 5 ∧ ∀ a ∈ all, ¬a.Alike m := by
  obtain ⟨best, notices, first, listed⟩ := readings_of_five_eq_some readings_of_five_best_only
  obtain ⟨all, others, second, listedToo⟩ := readings_of_five_eq_some readings_of_five_exhaustive
  obtain ⟨m, rfl, rowM⟩ := List.map_eq_singleton_iff.mp listed
  obtain ⟨b, rfl, rowB⟩ := List.map_eq_singleton_iff.mp listedToo
  obtain ⟨-, outputM⟩ := Prod.mk.inj rowM
  obtain ⟨-, outputB⟩ := Prod.mk.inj rowB
  refine ⟨[m], [b], notices, others, first, second, m, List.mem_singleton_self m, outputM, ?_⟩
  rintro a member ⟨-, -, same⟩
  rw [List.mem_singleton.mp member, outputM, outputB] at same
  cases same

theorem five_among_exhaustive : ∃ best all notices others,
    unweighted.parse #['5'] Context.training [.temperature, .number] .bestOnly =
      .ok (best, notices) ∧
    unweighted.parse #['5'] Context.training [.temperature, .number] .exhaustive =
      .ok (all, others) ∧ best.length = 1 ∧
    ∃ found forestNotices,
      unweighted.candidates #['5'] [.temperature, .number] .exhaustive =
        .ok (found, forestNotices) ∧
      ∀ m ∈ best,
        ((∃ a ∈ all, a.Alike m) ↔
          Selection.Clear [.temperature, .number] found m.kind m.bytes) ∧
        ((∀ t ∈ found, t.tagged = true →
          [Kind.temperature, .number].idxOf t.kind < [Kind.temperature, .number].idxOf m.kind →
            t.node.value.latent = false) → ∃ a ∈ all, a.Alike m) := by
  obtain ⟨best, notices, first, listed⟩ := readings_of_five_eq_some readings_of_five_best_only
  obtain ⟨all, others, second, -⟩ := readings_of_five_eq_some readings_of_five_exhaustive
  have one : best.length = 1 := by
    have count := congrArg List.length listed
    simpa using count
  exact ⟨best, all, notices, others, first, second, one,
    parse_among_exhaustive unweighted _ _ _ best all notices others first second⟩

end Parser

end Reckon

import Reckon.Proofs.Parsing.Dropping
import Reckon.Proofs.Sorting

/-!
# What a context decides

Candidates are selected before anything is resolved, and only times are resolved in a context. So
two contexts give the same matches except for times, and the times come from the same candidates.
-/

set_option autoImplicit false

namespace Reckon

open Sequencing

theorem Value.resolve_timeless {kind : Kind} (timeless : kind ≠ .datetime) (v : Value)
    (here there : Context) : v.resolve kind here = v.resolve kind there := by
  unfold resolve
  split
  · rename_i own
    cases v with
    | datetime v =>
        cases kind with
        | datetime => exact absurd rfl timeless
        | _ => cases own
    | _ => rfl
  · rfl

namespace Parser

variable {p : Parser} {text : Array Char} {order : List Kind} {mode : Selection}

theorem timeless_mentions (here there : Context) (found : List Candidate) :
    ((found.filterMap (mention? here)).filter fun m => m.kind != .datetime) =
      (found.filterMap (mention? there)).filter fun m => m.kind != .datetime := by
  induction found with
  | nil => rfl
  | cons c rest ih =>
      by_cases time : c.kind = .datetime
      · have hidden : ∀ context, ((c :: rest).filterMap (mention? context)).filter
            (fun m => m.kind != .datetime) =
              (rest.filterMap (mention? context)).filter fun m => m.kind != .datetime := by
          intro context
          cases resolved : mention? context c with
          | none => rw [List.filterMap_cons_none resolved]
          | some m =>
              have own := mention?_kind resolved
              rw [List.filterMap_cons_some resolved, List.filter_cons_of_neg (by simp [own, time])]
        rw [hidden, hidden, ih]
      · have same : mention? here c = mention? there c := by
          rw [mention?, mention?, Value.resolve_timeless time c.node.value here there]
        rw [List.filterMap_cons, List.filterMap_cons, same]
        cases mention? there c with
        | none => exact ih
        | some m => rw [List.filter_cons, List.filter_cons, ih]

/-- What a parse in a context reports of candidates that do not depend on it: the mention of each
one that can be resolved by itself, whatever becomes of the others. A time among the mentions is
what a candidate for a time resolves to. -/
structure ReportsEach (context : Context) (found : List Candidate) (mentions : List Mention) :
    Prop where
  each : mentions.Perm (found.filterMap (mention? context))
  times : ∀ m ∈ mentions, m.kind = .datetime →
    ∃ c ∈ found, c.kind = .datetime ∧ c.node.value.resolve .datetime context = .ok m.output ∧
      m = mentionOf c m.output

theorem parse_reports_each {context : Context} {mentions : List Mention}
    {notices forestNotices : List Notice} {found : List Candidate}
    (ran : p.parse text context order mode = .ok (mentions, notices))
    (candidates : p.candidates text order mode = .ok (found, forestNotices)) :
    ReportsEach context found mentions := by
  constructor
  case each =>
    obtain ⟨_, _, _, again, made, -⟩ := parse_ok ran
    rw [candidates] at again
    cases again
    rw [made]
    exact List.mergeSort_perm _ _
  case times =>
    intro m member time
    obtain ⟨c, inside, output, resolves, rfl⟩ := (mem_parse_iff ran candidates m).mp member
    have own : c.kind = .datetime := (Value.resolve_ok resolves).2.1.symm.trans time
    rw [own] at resolves
    exact ⟨c, inside, own, resolves, rfl⟩

/-- A context only affects times. Of two parses that differ in the context, the mentions other than
times are the same, in the same order; and all mentions of both stand for the same candidates, each
resolved by itself. -/
theorem parse_contexts (p : Parser) (text : Array Char) (order : List Kind) (mode : Selection)
    (here there : Context) (mentions others : List Mention) (notices otherNotices : List Notice)
    (first : p.parse text here order mode = .ok (mentions, notices))
    (second : p.parse text there order mode = .ok (others, otherNotices)) :
    (mentions.filter fun m => m.kind != .datetime) = (others.filter fun m => m.kind != .datetime) ∧
      ∃ found forestNotices, p.candidates text order mode = .ok (found, forestNotices) ∧
        ReportsEach here found mentions ∧ ReportsEach there found others := by
  obtain ⟨found, forestNotices, _, candidates, made, -⟩ := parse_ok first
  obtain ⟨_, _, _, again, madeToo, -⟩ := parse_ok second
  rw [candidates] at again
  cases again
  refine ⟨?_, found, forestNotices, candidates, parse_reports_each first candidates,
    parse_reports_each second candidates⟩
  have sorts := Sorting.filter_merge_sort (reported_before_trans order)
      (reported_before_total order)
  rw [made, madeToo, sorts, sorts, timeless_mentions here there]

/-- Reads each digit as a number, and a digit before a "w" also as nine o'clock now, which has to be
a day for that. -/
def hourParser : Parser where
  rules := {
    rules := [
      ⟨"digit", [.text .digit], fun
        | [.text m] => .ok ((m.content.head?.bind Text.digitValue?).map fun n =>
          .number ⟨.int n, none, false, false, false⟩)
        | _ => .ok none⟩,
      ⟨"hour", [.text (.seq .digit (.char 'w'))], fun _ =>
        .ok (some (.datetime ⟨.timed .now ⟨9, 0, false⟩, false, .exact⟩))⟩] }
  model := ⟨⟨0, [], 10⟩, false, "", none⟩

def daily : Context :=
  { Context.training with defaultGrain := .day }

/-- Whether what a context makes of a candidate leaves the parse running. -/
def isSettled (context : Context) (c : Candidate) : Bool :=
  match c.node.value.resolve c.kind context with
  | .ok _ => true
  | .error failure => isDroppable failure

theorem droppable_of_is_settled {context : Context} {c : Candidate}
    (settled : isSettled context c = true) : Droppable context c := by
  intro failure failed
  simpa only [isSettled, failed] using settled

/-- Whether the candidates of "7w 4" all leave the parse running, times before numbers, and the
kinds and ranges of what is then reported. -/
def hourReadings (context : Context) : Option (Bool × List (Kind × Span)) :=
  (hourParser.candidates #['7', 'w', ' ', '4'] [.datetime, .number] .bestOnly).toOption.map
    fun found => (found.1.all (isSettled context),
      ((found.1.filterMap (mention? context)).mergeSort (reportedBefore [.datetime, .number])).map
        fun m => (m.kind, m.bytes))

/-- The time is dropped where now means a second. It bars the number inside it all the same. -/
theorem hour_readings_contexts : ∃ mentions others notices otherNotices,
    hourParser.parse #['7', 'w', ' ', '4'] Context.training [.datetime, .number] .bestOnly =
      .ok (mentions, notices) ∧
    hourParser.parse #['7', 'w', ' ', '4'] daily [.datetime, .number] .bestOnly =
      .ok (others, otherNotices) ∧
    mentions.map (fun m => (m.kind, m.bytes)) = [(.number, ⟨3, 4⟩)] ∧
    others.map (fun m => (m.kind, m.bytes)) = [(.datetime, ⟨0, 2⟩), (.number, ⟨3, 4⟩)] ∧
    (mentions.filter fun m => m.kind != .datetime) = (others.filter fun m => m.kind != .datetime) ∧
    ∃ found forestNotices,
      hourParser.candidates #['7', 'w', ' ', '4'] [.datetime, .number] .bestOnly =
        .ok (found, forestNotices) ∧
      ReportsEach Context.training found mentions ∧ ReportsEach daily found others := by
  have dropped : hourReadings Context.training = some (true, [(.number, ⟨3, 4⟩)]) := by
    cbv
  have kept : hourReadings daily = some (true, [(.datetime, ⟨0, 2⟩), (.number, ⟨3, 4⟩)]) := by
    cbv
  obtain ⟨⟨found, notices⟩, first, listed⟩ := Option.map_eq_some_iff.mp dropped
  have candidates := ok_of_to_option first
  rw [hourReadings, first, Option.map_some, Option.some_inj] at kept
  have settles : ∀ context, found.all (isSettled context) = true →
      ∀ c ∈ found, Droppable context c := fun context settled c member =>
    droppable_of_is_settled (List.all_eq_true.mp settled c member)
  have ran := parse_of_droppable candidates (settles _ (congrArg Prod.fst listed))
  have ranToo := parse_of_droppable candidates (settles _ (congrArg Prod.fst kept))
  exact ⟨_, _, _, _, ran, ranToo, congrArg Prod.snd listed, congrArg Prod.snd kept,
    parse_contexts hourParser _ _ _ _ _ _ _ _ _ ran ranToo⟩

end Parser

end Reckon

import Mathlib
import Reckon.Parser
import Reckon.Proofs.Forest.Saturation
import Reckon.Proofs.Selection.Greedy
import Reckon.Proofs.Text.Bytes

/-!
# What the best readings are

If a parse for the best readings returns, its mentions follow one another in the text without
overlap, each covers a non-empty range whose bytes are the UTF-8 form of its characters and reports
a node of the forest that is not latent, and every tagged candidate became a mention or a notice.
-/

set_option autoImplicit false

namespace Reckon

open Sequencing

def Output.isLatent : Output → Bool
  | .datetime _ _ _ latent | .interval _ _ _ _ latent => latent
  | _ => false

def Notice.isDrop : Notice → Bool
  | .dropped _ _ _ => true
  | _ => false

/-- A mention lies at a non-empty range of a text, in characters and in bytes. -/
structure Mention.LiesAt (text : Array Char) (m : Mention) (start stop : Nat) : Prop where
  chars : m.chars = ⟨start, stop⟩
  bytes : m.bytes = ⟨Text.byteOffset text start, Text.byteOffset text stop⟩
  nonempty : start < stop
  inside : stop ≤ text.size
  content : (Text.slice text start stop).utf8Encode =
    text.toList.utf8Encode.extract m.bytes.start.toNat m.bytes.stop.toNat

namespace Value

theorem resolve_datetime_ok {c : Context} {v : DatetimeValue} {output : Output}
    (ran : resolveDatetime c v = .ok output) :
    output.kind = .datetime ∧ output.isLatent = v.latent := by
  unfold resolveDatetime at ran
  split at ran
  · rename_i start stop form
    unfold resolveInterval at ran
    obtain ⟨⟨first, firstGrain⟩, -, rest⟩ := (bind_ok_iff _ _ _).mp ran
    obtain ⟨⟨last, lastGrain⟩, -, made⟩ := (bind_ok_iff _ _ _).mp rest
    simp only at made
    split at made
    · cases made
    · cases made
      exact ⟨rfl, rfl⟩
  · obtain ⟨grounded, -, made⟩ := (bind_ok_iff _ _ _).mp ran
    cases made
    exact ⟨rfl, rfl⟩

theorem read_ok {v : Value} {c : Context} {output : Output} (ran : v.read c = .ok output) :
    v.dimension? = some output.kind.dimension ∧ (output.isLatent = true → v.latent = true) := by
  cases v with
  | number v =>
      simp only [read] at ran
      cases number : v.value with
      | truth b => rw [number] at ran; cases ran
      | int n => rw [number] at ran; cases ran; exact ⟨rfl, by simp [Output.isLatent]⟩
      | float x => rw [number] at ran; cases ran; exact ⟨rfl, by simp [Output.isLatent]⟩
  | ordinal v =>
      obtain ⟨n, -, made⟩ := (bind_ok_iff _ _ _).mp ran
      cases made
      exact ⟨rfl, by simp [Output.isLatent]⟩
  | percentage v =>
      obtain ⟨x, -, made⟩ := (bind_ok_iff _ _ _).mp ran
      cases made
      exact ⟨rfl, by simp [Output.isLatent]⟩
  | temperature v =>
      obtain ⟨x, -, made⟩ := (bind_ok_iff _ _ _).mp ran
      cases made
      exact ⟨rfl, by simp [Output.isLatent]⟩
  | money v =>
      obtain ⟨x, -, made⟩ := (bind_ok_iff _ _ _).mp ran
      cases made
      exact ⟨rfl, by simp [Output.isLatent]⟩
  | duration v =>
      simp only [read] at ran
      split at ran
      · cases ran
      · cases ran
        exact ⟨rfl, by simp [Output.isLatent]⟩
  | datetime v =>
      obtain ⟨kind, latent⟩ := resolve_datetime_ok ran
      rw [kind, latent]
      exact ⟨rfl, id⟩
  | timeGrain v | moneyUnit v => cases ran
  | unknown typeName dimension => cases ran

/-- What a value resolves to has the kind asked for, which is that of the value, and is latent only
if the value is. -/
theorem resolve_ok {kind : Kind} {v : Value} {c : Context} {output : Output}
    (ran : v.resolve kind c = .ok output) :
    v.dimension? = some kind.dimension ∧ output.kind = kind ∧
      (output.isLatent = true → v.latent = true) := by
  unfold resolve at ran
  split at ran
  · rename_i own
    obtain ⟨read, latent⟩ := read_ok ran
    have same : kind.dimension = output.kind.dimension := Option.some.inj (own.symm.trans read)
    refine ⟨own, ?_, latent⟩
    have known := (Kind.of_dimension?_eq_some_iff kind.dimension output.kind).mpr same
    rw [(Kind.of_dimension?_eq_some_iff kind.dimension kind).mpr rfl] at known
    exact (Option.some.inj known).symm
  · cases ran

end Value

namespace Parser

/-! The order of report. -/

theorem reported_before_iff (order : List Kind) (a b : Mention) :
    reportedBefore order a b = true ↔
      a.bytes.start < b.bytes.start ∨ a.bytes.start = b.bytes.start ∧
        (priority order a.kind < priority order b.kind ∨
          priority order a.kind = priority order b.kind ∧
            b.bytes.stop - b.bytes.start ≤ a.bytes.stop - a.bytes.start) := by
  unfold reportedBefore
  split_ifs with start kind
  · rw [decide_eq_true_iff]
    omega
  · rw [decide_eq_true_iff]
    omega
  · rw [decide_eq_true_iff]
    omega

theorem reported_before_trans (order : List Kind) (a b c : Mention)
    (first : reportedBefore order a b = true) (second : reportedBefore order b c = true) :
    reportedBefore order a c = true := by
  rw [reported_before_iff] at *
  omega

theorem reported_before_total (order : List Kind) (a b : Mention) :
    (reportedBefore order a b || reportedBefore order b a) = true := by
  rw [Bool.or_eq_true, reported_before_iff, reported_before_iff]
  omega

theorem sorted_starts (order : List Kind) (mentions : List Mention) :
    (mentions.mergeSort (reportedBefore order)).Pairwise fun a b =>
      a.bytes.start ≤ b.bytes.start := by
  apply (List.pairwise_mergeSort (reported_before_trans order) (reported_before_total order)
    mentions).imp
  intro a b before
  rw [reported_before_iff] at before
  omega

/-! From tagged candidates to mentions. -/

def mention? (context : Context) (c : Candidate) : Option Mention :=
  match c.node.value.resolve c.kind context with
  | .ok output => some (mentionOf c output)
  | .error _ => none

theorem report_ok {context : Context} {text : Array Char} {c : Candidate}
    {outcome : Mention ⊕ Notice} (ran : report context text c = .ok outcome) :
    (∃ m, outcome = .inl m ∧ mention? context c = some m) ∨
      ∃ notice, outcome = .inr notice ∧ notice.isDrop = true ∧ mention? context c = none := by
  cases resolved : c.node.value.resolve c.kind context with
  | ok output =>
      rw [report, resolved] at ran
      cases ran
      exact .inl ⟨mentionOf c output, rfl, by rw [mention?, resolved]⟩
  | error failure =>
      rw [report, resolved] at ran
      dsimp only at ran
      split at ran
      · cases ran
        exact .inr ⟨_, rfl, rfl, by rw [mention?, resolved]⟩
      · cases ran

/-- Each candidate becomes either its mention or a notice that it was dropped. -/
theorem reports_split {context : Context} {text : Array Char} {found : List Candidate}
    {reports : List (Mention ⊕ Notice)}
    (ran : found.mapM (report context text) = .ok reports) :
    reports.filterMap Sum.getLeft? = found.filterMap (mention? context) ∧
      (∀ notice ∈ reports.filterMap Sum.getRight?, notice.isDrop = true) ∧
      (reports.filterMap Sum.getLeft?).length + (reports.filterMap Sum.getRight?).length =
        found.length := by
  have paired := (map_m_ok_iff _ _ _).mp ran
  clear ran
  induction paired with
  | nil => simp
  | @cons c outcome found reports head tail ih =>
      obtain ⟨mentions, drops, count⟩ := ih
      rcases report_ok head with ⟨m, same, resolved⟩ | ⟨notice, same, drop, unresolved⟩
      · subst same
        simp only [List.filterMap_cons, Sum.getLeft?_inl, Sum.getRight?_inl, resolved,
          List.length_cons]
        exact ⟨by rw [mentions], drops, by omega⟩
      · subst same
        simp only [List.filterMap_cons, Sum.getLeft?_inr, Sum.getRight?_inr, unresolved,
          List.length_cons]
        refine ⟨mentions, ?_, by omega⟩
        intro other member
        rcases List.mem_cons.mp member with first | later
        · rw [first]
          exact drop
        · exact drops other later

theorem mention?_eq_some {context : Context} {c : Candidate} {m : Mention}
    (resolved : mention? context c = some m) :
    ∃ output, c.node.value.resolve c.kind context = .ok output ∧ m = mentionOf c output := by
  unfold mention? at resolved
  split at resolved
  · rename_i output ran
    cases resolved
    exact ⟨output, ran, rfl⟩
  · cases resolved

theorem mention?_kind {context : Context} {c : Candidate} {m : Mention}
    (resolved : mention? context c = some m) : m.kind = c.kind := by
  obtain ⟨output, ran, rfl⟩ := mention?_eq_some resolved
  exact (Value.resolve_ok ran).2.1

/-! What candidates come from. -/

/-- A candidate stands for a node of a forest whose value is plain and of a wanted kind. -/
structure Reads (order : List Kind) (entries : List (Entry Value)) (c : Candidate) : Prop where
  tagged : c.tagged = true
  wanted : c.kind ∈ order
  node : ∃ e ∈ entries, e.node = c.node
  plain : c.node.value.latent = false
  dimension : c.node.value.dimension? = some c.kind.dimension

theorem candidates_read {p : Parser} {text : Array Char} {order : List Kind}
    {found : List Candidate} {notices : List Notice}
    (ran : p.candidates text order .bestOnly = .ok (found, notices)) :
    ∃ entries, p.rules.apply text = .ok (entries, notices) ∧ (∀ c ∈ found, Reads order entries c) ∧
      found.Pairwise fun a b => a.node.bytes.overlaps b.node.bytes = false := by
  obtain ⟨⟨nodes, forestNotices⟩, scored, rest⟩ := (bind_ok_iff _ _ _).mp ran
  obtain ⟨out, tagged, same⟩ := (bind_ok_iff _ _ _).mp rest
  cases same
  obtain ⟨⟨entries, applied⟩, grown, scoring⟩ := (bind_ok_iff _ _ _).mp scored
  obtain ⟨scores, -, listed⟩ := (bind_ok_iff _ _ _).mp scoring
  cases listed
  have allTagged := Selection.tag_all_tagged tagged
  refine ⟨entries, grown, ?_, ?_⟩
  · intro c member
    obtain ⟨s, source, node, -, known, eligible⟩ :=
      Selection.tagged_source tagged c member (allTagged c member)
    obtain ⟨⟨kind, wanted, own⟩, plain⟩ := (Selection.is_eligible_iff _ _ _).mp eligible
    rw [known] at own
    cases own
    obtain ⟨⟨e, score⟩, paired, made⟩ := List.mem_map.mp source
    have entry := (List.of_mem_zip paired).1
    rw [← made] at node known plain
    obtain ⟨dimension, here, reported⟩ := Option.bind_eq_some_iff.mp known
    refine ⟨allTagged c member, wanted, ⟨e, entry, node⟩, ?_, ?_⟩
    · rw [← node]
      simpa using plain
    · rw [← node, ← (Kind.of_dimension?_eq_some_iff dimension c.kind).mp reported]
      exact here
  · have apart := Selection.tagged_apart tagged
    rwa [List.filter_eq_self.mpr allTagged] at apart

/-- A node of a forest lies at a range of the text. -/
theorem mention_lies {rs : RuleSet Value} {text : Array Char} {c : Candidate} {output : Output}
    (derives : Forest.Derives rs text c.node) :
    ∃ start stop, (mentionOf c output).LiesAt text start stop := by
  obtain ⟨start, stop, covers⟩ := Forest.derives_covers derives
  have nonempty := covers.nonempty
  have bytes : (mentionOf c output).bytes =
      ⟨Text.byteOffset text start, Text.byteOffset text stop⟩ := covers.bytes
  refine ⟨start, stop, covers.chars, bytes, nonempty, covers.inside, ?_⟩
  rw [bytes, Text.utf8_encode_slice text (Nat.le_of_lt nonempty) covers.inside]
  simp

end Parser

/-- Of two mentions that lie apart the one that starts first ends before the other starts. -/
theorem Mention.LiesAt.before {text : Array Char} {a b : Mention} {start stop first last : Nat}
    (left : a.LiesAt text start stop) (right : b.LiesAt text first last)
    (apart : a.bytes.overlaps b.bytes = false) (order : a.bytes.start ≤ b.bytes.start) :
    a.chars.stop ≤ b.chars.start ∧ a.bytes.stop ≤ b.bytes.start := by
  have insideLeft := left.inside
  have insideRight := right.inside
  have nonemptyRight := right.nonempty
  have forward := Text.byte_offset_lt text right.nonempty right.inside
  have bytes : Text.byteOffset text stop ≤ Text.byteOffset text first := by
    rw [left.bytes, right.bytes] at order apart
    simp only [Span.overlaps, Bool.and_eq_false_iff, decide_eq_false_iff_not] at order apart
    omega
  have chars := (Text.byte_offset_le_iff text insideLeft (by omega)).mp bytes
  rw [left.chars, right.chars, left.bytes, right.bytes]
  constructor
  · simp only
    omega
  · simp only
    omega

namespace Parser

theorem parse_ok {p : Parser} {text : Array Char} {context : Context} {order : List Kind}
    {mode : Selection} {mentions : List Mention} {notices : List Notice}
    (ran : p.parse text context order mode = .ok (mentions, notices)) :
    ∃ found forestNotices drops, p.candidates text order mode = .ok (found, forestNotices) ∧
      mentions = (found.filterMap (mention? context)).mergeSort (reportedBefore order) ∧
      notices = forestNotices ++ drops ∧ (∀ notice ∈ drops, notice.isDrop = true) ∧
      mentions.length + drops.length = found.length := by
  obtain ⟨⟨found, forestNotices⟩, candidates, rest⟩ := (bind_ok_iff _ _ _).mp ran
  obtain ⟨reports, reported, same⟩ := (bind_ok_iff _ _ _).mp rest
  cases same
  obtain ⟨split, drops, count⟩ := reports_split reported
  refine ⟨found, forestNotices, reports.filterMap Sum.getRight?, candidates, by rw [split], rfl,
    drops, ?_⟩
  rw [List.length_mergeSort]
  exact count

/-- A reported mention is that of a candidate that was found. -/
theorem mem_mentions {context : Context} {order : List Kind} {found : List Candidate} {m : Mention}
    (member : m ∈ (found.filterMap (mention? context)).mergeSort (reportedBefore order)) :
    ∃ c ∈ found, ∃ output, c.node.value.resolve c.kind context = .ok output ∧
      m = mentionOf c output := by
  obtain ⟨c, here, resolved⟩ := List.mem_filterMap.mp (List.mem_mergeSort.mp member)
  obtain ⟨output, ran, same⟩ := mention?_eq_some resolved
  exact ⟨c, here, output, ran, same⟩

/-- Mentions of candidates that lie apart lie apart, in any order of report. -/
theorem mentions_apart {context : Context} {order : List Kind} {found : List Candidate}
    (apart : found.Pairwise fun a b => a.node.bytes.overlaps b.node.bytes = false) :
    ((found.filterMap (mention? context)).mergeSort (reportedBefore order)).Pairwise fun a b =>
      a.bytes.overlaps b.bytes = false := by
  apply ((List.mergeSort_perm _ _).pairwise_iff fun clear => by
    rw [Span.overlaps_comm]
    exact clear).mpr
  apply List.pairwise_filterMap.mpr
  apply apart.imp
  intro a b clear m left n right
  obtain ⟨output, -, sameLeft⟩ := mention?_eq_some left
  obtain ⟨other, -, sameRight⟩ := mention?_eq_some right
  rw [sameLeft, sameRight]
  exact clear

/-- What the best readings of a text are. -/
structure BestReadings (p : Parser) (text : Array Char) (context : Context) (order : List Kind)
    (mentions : List Mention) (notices : List Notice) : Prop where
  /-- The mentions follow one another without overlap. -/
  follow : mentions.Pairwise fun a b =>
    a.chars.stop ≤ b.chars.start ∧ a.bytes.stop ≤ b.bytes.start
  lie : ∀ m ∈ mentions, ∃ start stop, m.LiesAt text start stop
  /-- Each reports a plain node of the forest under the kind of the node, which is wanted. -/
  read : ∀ m ∈ mentions, m.kind ∈ order ∧ ∃ entries forestNotices,
    p.rules.apply text = .ok (entries, forestNotices) ∧ ∃ e ∈ entries,
      e.node.chars = m.chars ∧ e.node.bytes = m.bytes ∧ e.node.height = m.height ∧
        e.node.size = m.size ∧ e.node.value.latent = false ∧
        e.node.value.dimension? = some m.kind.dimension
  plain : ∀ m ∈ mentions, m.latent = false ∧ m.output.isLatent = false
  /-- They are the tagged candidates that could be resolved; a notice stands for each other one. -/
  accounted : ∃ found forestNotices,
    p.candidates text order .bestOnly = .ok (found, forestNotices) ∧
      (∀ c ∈ found, c.tagged = true) ∧ mentions.Perm (found.filterMap (mention? context)) ∧
      mentions.length + (notices.filter (·.isDrop)).length = found.length

theorem parse_best_only (p : Parser) (text : Array Char) (context : Context) (order : List Kind)
    (mentions : List Mention) (notices : List Notice)
    (ran : p.parse text context order .bestOnly = .ok (mentions, notices)) :
    BestReadings p text context order mentions notices := by
  obtain ⟨found, forestNotices, drops, candidates, made, listed, dropped, count⟩ := parse_ok ran
  obtain ⟨entries, grown, reads, apart⟩ := candidates_read candidates
  have derived := RuleSet.apply_sound grown
  have shuffled : mentions.Perm (found.filterMap (mention? context)) := by
    rw [made]
    exact List.mergeSort_perm _ _
  have source : ∀ m ∈ mentions, ∃ c ∈ found, ∃ output,
      c.node.value.resolve c.kind context = .ok output ∧ m = mentionOf c output := by
    intro m member
    rw [made] at member
    exact mem_mentions member
  have lies : ∀ m ∈ mentions, ∃ start stop, m.LiesAt text start stop := by
    intro m member
    obtain ⟨c, here, output, -, same⟩ := source m member
    obtain ⟨e, inside, node⟩ := (reads c here).node
    rw [same]
    exact mention_lies (node ▸ derived e inside)
  refine ⟨?_, lies, ?_, ?_, ⟨found, forestNotices, candidates, fun c here => (reads c here).tagged,
    shuffled, ?_⟩⟩
  · have apartSorted : mentions.Pairwise fun a b => a.bytes.overlaps b.bytes = false := by
      rw [made]
      exact mentions_apart apart
    have starts := sorted_starts order (found.filterMap (mention? context))
    rw [← made] at starts
    apply (starts.and apartSorted).imp_of_mem
    rintro a b left right ⟨before, clear⟩
    obtain ⟨start, stop, liesLeft⟩ := lies a left
    obtain ⟨first, last, liesRight⟩ := lies b right
    exact liesLeft.before liesRight clear before
  · intro m member
    obtain ⟨c, here, output, ran, same⟩ := source m member
    obtain ⟨dimension, kind, -⟩ := Value.resolve_ok ran
    obtain ⟨e, inside, node⟩ := (reads c here).node
    have own : m.kind = c.kind := by
      rw [same]
      exact kind
    rw [own]
    refine ⟨(reads c here).wanted, entries, forestNotices, grown, e, inside, ?_⟩
    rw [node, same]
    exact ⟨rfl, rfl, rfl, rfl, (reads c here).plain, dimension⟩
  · intro m member
    obtain ⟨c, here, output, ran, same⟩ := source m member
    obtain ⟨-, -, latent⟩ := Value.resolve_ok ran
    have plain := (reads c here).plain
    rw [plain] at latent
    rw [same]
    constructor
    · simp [mentionOf, Candidate.latent, plain, (reads c here).tagged]
    · simpa [mentionOf] using latent
  · have kept : forestNotices.filter (·.isDrop) = [] := by
      rw [List.filter_eq_nil_iff]
      intro notice member
      rcases RuleSet.apply_notices grown notice member with same | same
      · rw [same]
        simp [Notice.isDrop]
      · rw [same]
        simp [Notice.isDrop]
    rw [listed, List.filter_append, kept, List.filter_eq_self.mpr dropped, List.nil_append]
    exact count

def digitParser : Parser where
  rules := {
    rules := [⟨"digit", [.text (.one .digit)], fun
      | [.text m] => .ok ((m.content.head?.bind Text.digitValue?).map fun n =>
        .number ⟨.int n, none, false, false, false⟩)
      | _ => .ok none⟩] }
  model := ⟨⟨0, [], 10⟩, false, "", none⟩

theorem digit_parser_best_only : ∃ mentions notices,
    digitParser.parse #['7', 'é', '4'] Context.training [.ordinal, .number, .ordinal] .bestOnly =
      .ok (mentions, notices) ∧ mentions.length = 2 ∧
      BestReadings digitParser #['7', 'é', '4'] Context.training [.ordinal, .number, .ordinal]
        mentions notices := by
  have counted : (digitParser.parse #['7', 'é', '4'] Context.training
      [.ordinal, .number, .ordinal] .bestOnly).toOption.map (fun found => found.1.length) =
        some 2 := by
    cbv
  obtain ⟨⟨mentions, notices⟩, ran, two⟩ := exists_ok_of_map counted
  exact ⟨mentions, notices, ran, two, parse_best_only digitParser _ _ _ _ _ ran⟩

end Parser

end Reckon

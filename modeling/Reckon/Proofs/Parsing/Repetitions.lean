import Reckon.Proofs.Parsing.LaterKinds
import Reckon.Proofs.Sorting

/-!
# Kinds that an order repeats

Selection counts a kind where it first occurs in an order, and the order of report where it last
occurs. Best readings start at places of their own, so repetitions do not show there. Among all
readings, those of different kinds that start at one place are reported by the last places.
-/

set_option autoImplicit false

namespace Reckon

open Sequencing

namespace Selection

theorem erase_dups_nodup (order : List Kind) : order.eraseDups.Nodup := by
  apply (erase_dups_ordered order).imp
  rintro a b before rfl
  exact Nat.lt_irrefl _ before

theorem erase_dups_eq_self {kinds : List Kind} (once : kinds.Nodup) : kinds.eraseDups = kinds := by
  induction kinds with
  | nil => rfl
  | cons kind later ih =>
      obtain ⟨absent, rest⟩ := List.nodup_cons.mp once
      have others : later.filter (fun other => !other == kind) = later := by
        apply List.filter_eq_self.mpr
        rintro other member
        have different : other ≠ kind := fun same => absent (same ▸ member)
        simpa using different
      rw [List.eraseDups_cons, others, ih rest]

theorem is_eligible_erase_dups (mode : Selection) (order : List Kind) (c : Scored) :
    mode.isEligible order.eraseDups c = mode.isEligible order c := by
  rw [Bool.eq_iff_iff, is_eligible_iff, is_eligible_iff]
  simp only [List.mem_eraseDups]

theorem tag_erase_dups (mode : Selection) (order : List Kind) (candidates : List Scored) :
    mode.tag order.eraseDups candidates = mode.tag order candidates := by
  unfold tag
  simp only [is_eligible_erase_dups, erase_dups_eq_self (erase_dups_nodup order)]

theorem idx_of_erase_dups_lt {order : List Kind} {a b : Kind} (left : a ∈ order) (right : b ∈ order)
    (before : order.idxOf a < order.idxOf b) :
    order.eraseDups.idxOf a < order.eraseDups.idxOf b := by
  have insideA := List.idxOf_lt_length_of_mem (List.mem_eraseDups.mpr left)
  have insideB := List.idxOf_lt_length_of_mem (List.mem_eraseDups.mpr right)
  rcases Nat.lt_trichotomy (order.eraseDups.idxOf a) (order.eraseDups.idxOf b) with
    ahead | same | behind
  · exact ahead
  · rw [(List.idxOf_inj (List.mem_eraseDups.mpr left)).mp same] at before
    exact absurd before (Nat.lt_irrefl _)
  · have back := List.pairwise_iff_getElem.mp (erase_dups_ordered order) _ _ insideB insideA behind
    rw [List.getElem_idxOf, List.getElem_idxOf] at back
    omega

end Selection

namespace Parser

open Selection

variable {p : Parser} {text : Array Char} {context : Context} {order : List Kind}
  {mode : Selection}

theorem candidates_erase_dups (p : Parser) (text : Array Char) (order : List Kind)
    (mode : Selection) :
    p.candidates text order.eraseDups mode = p.candidates text order mode := by
  unfold candidates
  simp only [tag_erase_dups]

/-! Places. -/

theorem priority_inj {order : List Kind} {a b : Kind} (left : a ∈ order) (right : b ∈ order)
    (same : priority order a = priority order b) : a = b := by
  have insideA := List.idxOf_lt_length_of_mem (List.mem_reverse.mpr left)
  have insideB := List.idxOf_lt_length_of_mem (List.mem_reverse.mpr right)
  rw [List.length_reverse] at insideA insideB
  apply (List.idxOf_inj (List.mem_reverse.mpr left)).mp
  unfold priority at same
  omega

theorem priority_eq_idx_of {kinds : List Kind} (once : kinds.Nodup) {kind : Kind}
    (wanted : kind ∈ kinds) : priority kinds kind = kinds.idxOf kind := by
  have inside := List.idxOf_lt_length_of_mem wanted
  have back : kinds.length - 1 - kinds.idxOf kind < kinds.reverse.length := by
    rw [List.length_reverse]
    omega
  have place := (List.nodup_reverse.mpr once).idxOf_getElem _ back
  rw [List.getElem_reverse] at place
  have mirrored : kinds.length - 1 - (kinds.length - 1 - kinds.idxOf kind) = kinds.idxOf kind := by
    omega
  simp only [mirrored, List.getElem_idxOf] at place
  unfold priority
  omega

/-! Reports. -/

theorem mention_wanted {found : List Candidate} {notices : List Notice}
    (ran : p.candidates text order mode = .ok (found, notices)) {m : Mention}
    (member : m ∈ found.filterMap (mention? context)) : m.kind ∈ order := by
  obtain ⟨nodes, -, tagged⟩ := (candidates_ok_iff _ _).mp ran
  obtain ⟨c, inside, resolved⟩ := List.mem_filterMap.mp member
  rw [mention?_kind resolved]
  unfold tag at tagged
  split at tagged
  · cases tagged
  · split at tagged
    · cases tagged
    · cases tagged
      exact List.mem_eraseDups.mp (serve_kind _ _ _ _ c inside)

theorem reported_before_of_tied {a b : Mention} (left : a.kind ∈ order) (right : b.kind ∈ order)
    (forth : reportedBefore order.eraseDups a b = true)
    (back : reportedBefore order.eraseDups b a = true) : reportedBefore order a b = true := by
  rw [reported_before_iff] at *
  have same : priority order.eraseDups a.kind = priority order.eraseDups b.kind := by omega
  rw [priority_inj (List.mem_eraseDups.mpr left) (List.mem_eraseDups.mpr right) same] at *
  omega

/-- Under the order without repetitions a parse reports the same, but puts it in the order of first
places. -/
theorem parse_erase_dups (p : Parser) (text : Array Char) (context : Context) (order : List Kind)
    (mode : Selection) :
    p.parse text context order.eraseDups mode = (p.parse text context order mode).map fun found =>
      (found.1.mergeSort (reportedBefore order.eraseDups), found.2) := by
  unfold parse
  rw [candidates_erase_dups]
  cases ran : p.candidates text order mode with
  | error failure => rfl
  | ok found =>
      simp only [ok_bind]
      cases reported : found.1.mapM (report context text) with
      | error failure => rfl
      | ok reports =>
          have own := (reports_split reported).1
          simp only [ok_bind, own]
          refine congrArg Except.ok (Prod.ext ?_ rfl)
          refine (Sorting.merge_sort_merge_sort (reported_before_trans order)
            (reported_before_total order) (reported_before_trans _)
            (reported_before_total _) ?_).symm
          intro a memberA b memberB
          exact reported_before_of_tied (mention_wanted ran memberA) (mention_wanted ran memberB)

theorem parse_erase_dups_of_sorted
    (sorted : ∀ mentions notices, p.parse text context order mode = .ok (mentions, notices) →
      mentions.Pairwise fun a b => reportedBefore order.eraseDups a b = true) :
    p.parse text context order mode = p.parse text context order.eraseDups mode := by
  rw [parse_erase_dups]
  cases ran : p.parse text context order mode with
  | error failure => rfl
  | ok found =>
      have same := List.mergeSort_of_pairwise (sorted found.1 found.2 ran)
      simp only [Except.map, same]

theorem best_only_sorted {mentions : List Mention} {notices : List Notice}
    (ran : p.parse text context order .bestOnly = .ok (mentions, notices)) (other : List Kind) :
    mentions.Pairwise fun a b => reportedBefore other a b = true := by
  obtain ⟨found, forestNotices, -, candidates, made, -⟩ := parse_ok ran
  have once : (mentions.map (·.bytes.start)).Nodup := by
    rw [made]
    exact ((List.mergeSort_perm _ _).map _).nodup_iff.mpr (starts_nodup candidates)
  have starts := sorted_starts order (found.filterMap (mention? context))
  rw [← made] at starts
  apply (starts.and (List.pairwise_map.mp once)).imp
  rintro a b ⟨before, different⟩
  rw [reported_before_iff]
  omega

theorem sorted_of_agree {mentions : List Mention} {notices : List Notice}
    (agree : ∀ a ∈ order, ∀ b ∈ order, order.idxOf a < order.idxOf b →
      priority order a < priority order b)
    (ran : p.parse text context order mode = .ok (mentions, notices)) :
    mentions.Pairwise fun a b => reportedBefore order.eraseDups a b = true := by
  obtain ⟨found, forestNotices, -, candidates, made, -⟩ := parse_ok ran
  have wanted : ∀ m ∈ mentions, m.kind ∈ order := by
    intro m member
    rw [made, List.mem_mergeSort] at member
    exact mention_wanted candidates member
  have sorted := List.pairwise_mergeSort (reported_before_trans order) (reported_before_total order)
    (found.filterMap (mention? context))
  rw [← made] at sorted
  apply sorted.imp_of_mem
  intro a b memberA memberB before
  have wantedA := wanted a memberA
  have wantedB := wanted b memberB
  have placed : ∀ kind ∈ order, priority order.eraseDups kind = order.eraseDups.idxOf kind :=
    fun kind inside => priority_eq_idx_of (erase_dups_nodup order) (List.mem_eraseDups.mpr inside)
  rw [reported_before_iff] at before ⊢
  rw [placed _ wantedA, placed _ wantedB]
  rcases before with start | ⟨start, earlier | ⟨same, longer⟩⟩
  · exact .inl start
  · refine .inr ⟨start, .inl ?_⟩
    rcases Nat.lt_trichotomy (order.idxOf a.kind) (order.idxOf b.kind) with first | same | later
    · exact idx_of_erase_dups_lt wantedA wantedB first
    · rw [(List.idxOf_inj wantedA).mp same] at earlier
      exact absurd earlier (Nat.lt_irrefl _)
    · have back := agree _ wantedB _ wantedA later
      omega
  · exact .inr ⟨start, .inr ⟨by rw [priority_inj wantedA wantedB same], longer⟩⟩

/-- The repetitions in an order do not show in the best readings. All readings are the same as
without them, but those that start at one place may come in another order; not where the last places
of the kinds come in the order of the first. -/
theorem parse_repetitions (p : Parser) (text : Array Char) (context : Context)
    (order : List Kind) :
    p.parse text context order .bestOnly = p.parse text context order.eraseDups .bestOnly ∧
    (∀ mode, p.parse text context order.eraseDups mode =
      (p.parse text context order mode).map fun found =>
        (found.1.mergeSort (reportedBefore order.eraseDups), found.2)) ∧
    ((∀ a ∈ order, ∀ b ∈ order, order.idxOf a < order.idxOf b →
        priority order a < priority order b) →
      ∀ mode, p.parse text context order mode = p.parse text context order.eraseDups mode) :=
  ⟨parse_erase_dups_of_sorted fun _ _ ran => best_only_sorted ran _,
    parse_erase_dups p text context order,
    fun agree _ => parse_erase_dups_of_sorted fun _ _ ran => sorted_of_agree agree ran⟩

theorem money_twice_repetitions :
    unweighted.parse "5 eur 14".toList.toArray Context.training
        [.amountOfMoney, .amountOfMoney, .number] .exhaustive =
      unweighted.parse "5 eur 14".toList.toArray Context.training [.amountOfMoney, .number]
        .exhaustive :=
  (parse_repetitions unweighted "5 eur 14".toList.toArray Context.training
    [.amountOfMoney, .amountOfMoney, .number]).2.2 (by decide) .exhaustive

def readingsOfMoney (order : List Kind) : Option (List (Kind × Span)) :=
  (unweighted.parse "5 eur 14".toList.toArray Context.training order .exhaustive).toOption.map
    fun found => found.1.map fun m => (m.kind, m.bytes)

theorem readings_of_money_eq_some {order : List Kind} {rows : List (Kind × Span)}
    (read : readingsOfMoney order = some rows) :
    ∃ mentions notices,
      unweighted.parse "5 eur 14".toList.toArray Context.training order .exhaustive =
        .ok (mentions, notices) ∧ mentions.map (fun m => (m.kind, m.bytes)) = rows := by
  obtain ⟨⟨mentions, notices⟩, returned, listed⟩ := exists_ok_of_map read
  exact ⟨mentions, notices, returned, listed⟩

/-- An amount and the number that opens it change places where amounts are asked for again after
numbers. -/
theorem money_again_swaps : ∃ again once notices others,
    unweighted.parse "5 eur 14".toList.toArray Context.training
      [.amountOfMoney, .number, .amountOfMoney] .exhaustive = .ok (again, notices) ∧
    unweighted.parse "5 eur 14".toList.toArray Context.training
      [Kind.amountOfMoney, .number, .amountOfMoney].eraseDups .exhaustive = .ok (once, others) ∧
    again.map (fun m => (m.kind, m.bytes)) =
      [(.number, ⟨0, 1⟩), (.amountOfMoney, ⟨0, 5⟩), (.amountOfMoney, ⟨2, 8⟩)] ∧
    once.map (fun m => (m.kind, m.bytes)) =
      [(.amountOfMoney, ⟨0, 5⟩), (.number, ⟨0, 1⟩), (.amountOfMoney, ⟨2, 8⟩)] := by
  have swapped : readingsOfMoney [.amountOfMoney, .number, .amountOfMoney] =
      some [(.number, ⟨0, 1⟩), (.amountOfMoney, ⟨0, 5⟩), (.amountOfMoney, ⟨2, 8⟩)] := by
    cbv
  have kept : readingsOfMoney [Kind.amountOfMoney, .number, .amountOfMoney].eraseDups =
      some [(.amountOfMoney, ⟨0, 5⟩), (.number, ⟨0, 1⟩), (.amountOfMoney, ⟨2, 8⟩)] := by
    cbv
  obtain ⟨again, notices, first, listed⟩ := readings_of_money_eq_some swapped
  obtain ⟨once, others, second, listedToo⟩ := readings_of_money_eq_some kept
  exact ⟨again, once, notices, others, first, second, listed, listedToo⟩

end Parser

end Reckon

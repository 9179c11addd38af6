import Reckon.Proofs.Parsing.Exhaustive

/-!
# Kinds added to the end of an order

Serving more kinds after those of an order leaves what is tagged for these as it was: the spans
tagged for a kind only bar the kinds after it. So the best readings under the longer order hold
those under the shorter one, which are all that are of its kinds.
-/

set_option autoImplicit false

namespace Reckon

open Sequencing

namespace Selection

variable {mode : Selection} {candidates : List Scored}

theorem serve_append (blocked : List Span) (kinds later : List Kind) :
    ∃ spans, mode.serve candidates blocked (kinds ++ later) =
      mode.serve candidates blocked kinds ++ mode.serve candidates spans later := by
  induction kinds generalizing blocked with
  | nil => exact ⟨blocked, rfl⟩
  | cons kind rest ih =>
      obtain ⟨spans, served⟩ :=
        ih (blocked ++ (mode.sweep kind blocked [] (mode.ranked kind candidates)).2)
      refine ⟨spans, ?_⟩
      simp only [List.cons_append, serve]
      rw [served, List.append_assoc]

/-- What is kept under a longer order starts with what is kept under the order itself; the rest is
of other kinds. -/
theorem tag_append {order later : List Kind} {all : List Candidate}
    (ran : mode.tag (order ++ later) candidates = .ok all) :
    ∃ found others, mode.tag order candidates = .ok found ∧ all = found ++ others ∧
      (∀ c ∈ found, c.kind ∈ order) ∧ ∀ c ∈ others, c.kind ∉ order := by
  unfold tag at ran ⊢
  split at ran
  · cases ran
  · rename_i known
    rw [if_neg known]
    split at ran
    · cases ran
    · rename_i forward
      cases ran
      have proper : ¬candidates.any
          (fun c => mode.isEligible order c && c.byteLength < 0) = true := by
        intro backward
        apply forward
        obtain ⟨c, member, eligible⟩ := List.any_eq_true.mp backward
        obtain ⟨wanted, short⟩ := Bool.and_eq_true_iff.mp eligible
        obtain ⟨⟨kind, inside, own⟩, plain⟩ := (is_eligible_iff _ _ _).mp wanted
        refine List.any_eq_true.mpr ⟨c, member, Bool.and_eq_true_iff.mpr ⟨?_, short⟩⟩
        exact (is_eligible_iff _ _ _).mpr ⟨⟨kind, List.mem_append_left later inside, own⟩, plain⟩
      rw [if_neg proper, List.eraseDups_append]
      obtain ⟨spans, served⟩ := @serve_append mode candidates []
        order.eraseDups (later.removeAll order).eraseDups
      refine ⟨_, _, rfl, served, ?_, ?_⟩
      · intro c member
        exact List.mem_eraseDups.mp (serve_kind _ _ _ _ c member)
      · intro c member wanted
        have left := List.mem_eraseDups.mp (serve_kind _ _ _ _ c member)
        simp [List.removeAll, wanted] at left

end Selection

namespace Parser

variable {p : Parser} {text : Array Char} {context : Context} {order : List Kind}

/-- Best readings start at places of their own. -/
theorem starts_nodup {found : List Candidate} {notices : List Notice}
    (ran : p.candidates text order .bestOnly = .ok (found, notices)) :
    ((found.filterMap (mention? context)).map (·.bytes.start)).Nodup := by
  obtain ⟨entries, grown, reads, apart⟩ := candidates_read ran
  have nonempty : ∀ c ∈ found, c.node.bytes.start < c.node.bytes.stop := by
    intro c member
    obtain ⟨e, inside, node⟩ := (reads c member).node
    obtain ⟨start, stop, covers⟩ := Forest.derives_covers (RuleSet.apply_sound grown e inside)
    have forward := Text.byte_offset_lt text covers.nonempty covers.inside
    have bytes : e.node.bytes = ⟨Text.byteOffset text start, Text.byteOffset text stop⟩ :=
      covers.bytes
    rw [← node, bytes]
    simp only
    omega
  refine List.pairwise_map.mpr (List.pairwise_filterMap.mpr (apart.imp_of_mem ?_))
  intro c d left right clear m madeM n madeN same
  obtain ⟨_, -, rfl⟩ := mention?_eq_some madeM
  obtain ⟨_, -, rfl⟩ := mention?_eq_some madeN
  have here := nonempty c left
  have there := nonempty d right
  simp only [mentionOf] at same
  simp only [Span.overlaps, Bool.and_eq_false_iff, decide_eq_false_iff_not] at clear
  omega

theorem sorted_unique {mentions : List Mention} (starts : (mentions.map (·.bytes.start)).Nodup)
    {first second : List Mention} (left : first.Perm mentions) (right : second.Perm mentions)
    (sortedLeft : first.Pairwise fun a b => a.bytes.start ≤ b.bytes.start)
    (sortedRight : second.Pairwise fun a b => a.bytes.start ≤ b.bytes.start) : first = second := by
  apply (left.trans right.symm).eq_of_pairwise _ sortedLeft sortedRight
  intro a b member memberToo before after
  exact List.inj_on_of_nodup_map starts (left.mem_iff.mp member) (right.mem_iff.mp memberToo)
    (Int.le_antisymm before after)

theorem filter_mentions {found more : List Candidate} (wanted : ∀ c ∈ found, c.kind ∈ order)
    (unwanted : ∀ c ∈ more, c.kind ∉ order) :
    (found.filterMap (mention? context) ++ more.filterMap (mention? context)).filter
      (fun m => order.contains m.kind) = found.filterMap (mention? context) := by
  have here : ∀ m ∈ found.filterMap (mention? context), order.contains m.kind = true := by
    intro m member
    obtain ⟨c, inside, resolved⟩ := List.mem_filterMap.mp member
    rw [mention?_kind resolved]
    simpa using wanted c inside
  have there : ∀ m ∈ more.filterMap (mention? context), ¬order.contains m.kind = true := by
    intro m member
    obtain ⟨c, inside, resolved⟩ := List.mem_filterMap.mp member
    rw [mention?_kind resolved]
    simpa using unwanted c inside
  rw [List.filter_append, List.filter_eq_self.mpr here, List.filter_eq_nil_iff.mpr there,
    List.append_nil]

/-- Kinds of lower priority do not influence those before them: if a parse under an order with more
kinds at its end returns, then so does the parse under the order itself, and its matches are those
of the longer parse whose kind occurs in it. -/
theorem parse_order_append (p : Parser) (text : Array Char) (context : Context)
    (order later : List Kind) (all : List Mention) (others : List Notice)
    (ran : p.parse text context (order ++ later) .bestOnly = .ok (all, others)) :
    ∃ notices, p.parse text context order .bestOnly =
        .ok (all.filter fun m => order.contains m.kind, notices) ∧ notices <+: others := by
  obtain ⟨⟨_, forestNotices⟩, candidates, rest⟩ := (bind_ok_iff _ _ _).mp ran
  obtain ⟨_, reported, same⟩ := (bind_ok_iff _ _ _).mp rest
  obtain ⟨nodes, scored, tagged⟩ := (candidates_ok_iff _ _).mp candidates
  obtain ⟨found, more, tags, rfl, wanted, unwanted⟩ := Selection.tag_append tagged
  have chosen : p.candidates text order .bestOnly = .ok (found, forestNotices) :=
    (candidates_ok_iff _ _).mpr ⟨nodes, scored, tags⟩
  rw [List.mapM_append] at reported
  obtain ⟨reports, reportedFirst, reportedRest⟩ := (bind_ok_iff _ _ _).mp reported
  obtain ⟨lateReports, reportedLater, joined⟩ := (bind_ok_iff _ _ _).mp reportedRest
  cases joined
  cases same
  have own := (reports_split reportedFirst).1
  have late := (reports_split reportedLater).1
  have starts : ((found.filterMap (mention? context)).map (·.bytes.start)).Nodup :=
    starts_nodup chosen
  -- both sorts list the same mentions by their starts, which are different
  have same : (reports.filterMap Sum.getLeft?).mergeSort (reportedBefore order) =
      (((reports ++ lateReports).filterMap Sum.getLeft?).mergeSort
        (reportedBefore (order ++ later))).filter fun m => order.contains m.kind := by
    rw [List.filterMap_append, own, late]
    apply sorted_unique starts
    · exact List.mergeSort_perm _ _
    · have shuffled := (List.mergeSort_perm (found.filterMap (mention? context) ++
        more.filterMap (mention? context)) (reportedBefore (order ++ later))).filter
          fun m => order.contains m.kind
      rwa [filter_mentions wanted unwanted] at shuffled
    · exact sorted_starts order _
    · exact (sorted_starts (order ++ later) _).filter _
  refine ⟨forestNotices ++ reports.filterMap Sum.getRight?, ?_, ?_⟩
  · rw [← same]
    exact (bind_ok_iff _ _ _).mpr ⟨_, chosen, (bind_ok_iff _ _ _).mpr ⟨reports, reportedFirst, rfl⟩⟩
  · rw [List.filterMap_append, ← List.append_assoc]
    exact List.prefix_append _ _

/-- A percentage and a number, of which the first is wanted first and again at the end. -/
theorem percent_then_number_order_append : ∃ all others,
    unweighted.parse #['5', '%', ' ', '3'] Context.training
    ([.percentage] ++ [.number, .percentage])
      .bestOnly = .ok (all, others) ∧ all.map (·.kind) = [.percentage, .number] ∧
    ∃ notices, unweighted.parse #['5', '%', ' ', '3'] Context.training [.percentage] .bestOnly =
        .ok (all.filter fun m => [Kind.percentage].contains m.kind, notices) ∧
      notices <+: others := by
  have listed : (unweighted.parse #['5', '%', ' ', '3'] Context.training
      ([.percentage] ++ [.number, .percentage]) .bestOnly).toOption.map
        (fun found => found.1.map (·.kind)) = some [.percentage, .number] := by
    cbv
  obtain ⟨⟨all, others⟩, ran, kinds⟩ := exists_ok_of_map listed
  exact ⟨all, others, ran, kinds, parse_order_append unweighted _ _ _ _ all others ran⟩

end Parser

end Reckon

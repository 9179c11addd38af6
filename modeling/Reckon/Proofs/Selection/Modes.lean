import Mathlib
import Reckon.Proofs.Selection.Alternatives

/-!
# The two modes of selection

The modes tag alike, as long as nothing is latent: what the exhaustive mode adds are alternatives
that stay untagged and bar nothing. It keeps each candidate of a wanted kind once, except those that
overlap a candidate tagged for an earlier kind.
-/

set_option autoImplicit false

namespace Reckon.Selection

/-! The same candidates are tagged. -/

section Plain

variable {candidates : List Scored} (plain : ∀ c ∈ candidates, c.node.value.latent = false)
include plain

theorem is_eligible_plain (order : List Kind) {c : Scored} (member : c ∈ candidates) :
    isEligible .exhaustive order c = isEligible .bestOnly order c := by
  simp [isEligible, plain c member]

theorem visits_plain (order : List Kind) :
    visits .exhaustive order candidates = visits .bestOnly order candidates := by
  have same : ∀ kind, rankedPlaces .exhaustive candidates kind =
      rankedPlaces .bestOnly candidates kind := by
    intro kind
    unfold rankedPlaces
    congr 1
    apply List.filter_congr
    rintro ⟨c, place⟩ member
    exact is_eligible_plain plain [kind] (List.fst_mem_of_mem_zipIdx member)
  unfold visits
  rw [funext same]

theorem tag_returns_alike (order : List Kind) :
    (∃ failure, tag .exhaustive order candidates = .error failure ∧
        tag .bestOnly order candidates = .error failure) ∨
      ∃ all best, tag .exhaustive order candidates = .ok all ∧
        tag .bestOnly order candidates = .ok best := by
  have measured : (candidates.any fun c => isEligible .exhaustive order c && c.byteLength < 0) =
      candidates.any fun c => isEligible .bestOnly order c && c.byteLength < 0 := by
    rw [Bool.eq_iff_iff, List.any_eq_true, List.any_eq_true]
    constructor
    · rintro ⟨c, member, bad⟩
      exact ⟨c, member, is_eligible_plain plain order member ▸ bad⟩
    · rintro ⟨c, member, bad⟩
      exact ⟨c, member, (is_eligible_plain plain order member).symm ▸ bad⟩
  unfold tag
  rw [measured]
  split
  · exact .inl ⟨_, rfl, rfl⟩
  · split
    · exact .inl ⟨_, rfl, rfl⟩
    · exact .inr ⟨_, _, rfl, rfl⟩

theorem tag_best_only_eq (order : List Kind) :
    tag .bestOnly order candidates =
      (tag .exhaustive order candidates).map fun out => out.filter (·.tagged) := by
  rcases tag_returns_alike plain order with ⟨failure, first, second⟩ | ⟨all, best, first, second⟩
  · rw [first, second]
    rfl
  · have picked := tag_picks first
    rw [visits_plain plain, ← tag_picks second, List.filter_eq_self.mpr (tag_all_tagged second),
      List.map_inj_right fun _ _ => Option.some.inj] at picked
    rw [first, second, Except.map, picked]

end Plain

/-! Alternatives. -/

/-- An untagged candidate is one of the ranked candidates, and overlaps a span that was taken or one
that a candidate ranked before it takes. -/
theorem sweep_untagged (kind : Kind) (blocked taken : List Span) {ranked : List Scored}
    (sorted : ranked.Pairwise fun a b => a.ranksBefore b = true) :
    ∀ c ∈ (sweep .exhaustive kind blocked taken ranked).1, c.tagged = false →
      taken.any c.node.bytes.overlaps = true ∨
        ∃ t ∈ (sweep .exhaustive kind blocked taken ranked).1, t.tagged = true ∧
          c.node.bytes.overlaps t.node.bytes = true ∧
          (reading t).1.ranksBefore (reading c).1 = true := by
  induction ranked generalizing taken with
  | nil => simp [sweep]
  | cons s rest ih =>
      obtain ⟨first, sortedRest⟩ := List.pairwise_cons.mp sorted
      have ahead := fun taken => ih taken sortedRest
      have source : ∀ taken, ∀ c ∈ (sweep .exhaustive kind blocked taken rest).1,
          s.ranksBefore (reading c).1 = true := by
        intro taken c member
        have listed := List.mem_map_of_mem (f := reading) member
        rw [sweep_readings] at listed
        obtain ⟨r, kept, same⟩ := List.mem_map.mp listed
        rw [← same]
        exact first r (List.mem_filter.mp kept).1
      rw [sweep]
      split
      · exact ahead taken
      · split
        · rename_i overlapping
          simp only [if_true]
          intro c member untagged
          rcases List.mem_cons.mp member with rfl | later
          · exact .inl overlapping
          · rcases ahead taken c later untagged with before | ⟨t, inside, found⟩
            · exact .inl before
            · exact .inr ⟨t, List.mem_cons_of_mem _ inside, found⟩
        · intro c member untagged
          rcases List.mem_cons.mp member with rfl | later
          · cases untagged
          · rcases ahead _ c later untagged with before | ⟨t, inside, found⟩
            · rw [List.any_append, Bool.or_eq_true] at before
              rcases before with old | new
              · exact .inl old
              · refine .inr ⟨_, List.mem_cons_self, rfl, by simpa using new, ?_⟩
                exact source _ c later
            · exact .inr ⟨t, List.mem_cons_of_mem _ inside, found⟩

theorem ranked_sorted (mode : Selection) (kind : Kind) (candidates : List Scored) :
    (mode.ranked kind candidates).Pairwise fun a b => a.ranksBefore b = true :=
  List.pairwise_mergeSort Scored.ranks_before_trans Scored.ranks_before_total _

/-- A candidate is an alternative to a tagged one of its own kind, which it overlaps and does not
rank before. -/
def IsAlternative (out : List Candidate) (c : Candidate) : Prop :=
  ∃ t ∈ out, t.tagged = true ∧ t.kind = c.kind ∧ c.node.bytes.overlaps t.node.bytes = true ∧
    (reading t).1.ranksBefore (reading c).1 = true

theorem IsAlternative.mono {out more : List Candidate} {c : Candidate}
    (alternative : IsAlternative out c) (inside : out ⊆ more) : IsAlternative more c := by
  obtain ⟨t, member, found⟩ := alternative
  exact ⟨t, inside member, found⟩

theorem serve_untagged (candidates : List Scored) (blocked : List Span) (kinds : List Kind) :
    ∀ c ∈ serve .exhaustive candidates blocked kinds, c.tagged = false →
      IsAlternative (serve .exhaustive candidates blocked kinds) c := by
  induction kinds generalizing blocked with
  | nil => simp [serve]
  | cons kind later ih =>
      rw [serve]
      intro c member untagged
      rcases List.mem_append.mp member with here | after
      · have own := sweep_kind .exhaustive kind blocked [] (ranked .exhaustive kind candidates)
        rcases sweep_untagged kind blocked [] (ranked_sorted _ _ _) c here untagged with
          taken | ⟨t, inside, tagged, overlapping, ranks⟩
        · cases taken
        · exact ⟨t, List.mem_append_left _ inside, tagged, by rw [own t inside, own c here],
            overlapping, ranks⟩
      · exact (ih _ c after untagged).mono (List.subset_append_right _ _)

/-! All alternatives are kept. -/

def asReading (p : Scored × Nat) : Option (Scored × Kind) :=
  p.1.kind?.map fun kind => (p.1, kind)

/-- Whether an occurrence overlaps nothing that is tagged for a kind before its own. -/
def isKept (order : List Kind) (out : List Candidate) (p : Scored × Nat) : Bool :=
  p.1.kind?.any fun kind => decide (Clear order out kind p.1.node.bytes)

theorem tag_eq_filter {order : List Kind} {candidates : List Scored} {out : List Candidate}
    (ran : tag .exhaustive order candidates = .ok out) :
    (out.map reading).map some =
      ((visits .exhaustive order candidates).filter (isKept order out)).map asReading := by
  unfold tag at ran
  split at ran
  · cases ran
  · split at ran
    · cases ran
    · cases ran
      rw [visits, List.filter_flatMap, List.map_flatMap,
          serve_eq_flat_map (erase_dups_ordered order),
        List.map_flatMap]
      generalize serve .exhaustive candidates [] order.eraseDups = out
      congr 1
      funext kind
      have known : ∀ p ∈ rankedPlaces .exhaustive candidates kind, p.1.kind? = some kind :=
        fun p member => ((mem_ranked_places _ _ _ _).mp member).2.1
      rw [← map_ranked_places, List.filter_map, List.map_map, List.map_map]
      have kept : ∀ p ∈ rankedPlaces .exhaustive candidates kind, isKept order out p =
          (!([].any p.1.node.bytes.overlaps) &&
            decide (Clear order out kind p.1.node.bytes)) := by
        intro p member
        simp [isKept, known p member]
      rw [List.filter_congr kept]
      apply List.map_congr_left
      intro p member
      simp [asReading, known p (List.mem_filter.mp member).1]

/-- What the exhaustive mode keeps of some candidates. -/
structure KeepsAll (order : List Kind) (candidates : List Scored)
    (out : List Candidate) : Prop where
  /-- By kind and by rank, once each: all of a wanted kind that overlap nothing tagged for an
  earlier kind. -/
  kept : ∃ places : List (Scored × Nat), (out.map reading).map some = places.map asReading ∧
    places.Pairwise (Precedes order) ∧
    ∀ p, p ∈ places ↔ p ∈ candidates.zipIdx ∧
      ∃ kind ∈ order, p.1.kind? = some kind ∧ Clear order out kind (spanOf p)
  untagged : ∀ c ∈ out, c.tagged = false → IsAlternative out c

theorem tag_keeps_all {order : List Kind} {candidates : List Scored} {out : List Candidate}
    (ran : tag .exhaustive order candidates = .ok out) : KeepsAll order candidates out := by
  constructor
  case kept =>
    refine ⟨_, tag_eq_filter ran, (visits_ordered .exhaustive order candidates).filter _, ?_⟩
    intro p
    rw [List.mem_filter, mem_visits, is_eligible_iff, and_assoc]
    constructor
    · rintro ⟨member, ⟨⟨kind, wanted, known⟩, -⟩, free⟩
      exact ⟨member, kind, wanted, known, by simpa [isKept, known, spanOf] using free⟩
    · rintro ⟨member, kind, wanted, known, clear⟩
      exact ⟨member, ⟨⟨kind, wanted, known⟩, .inl rfl⟩, by
          simpa [isKept, known, spanOf] using clear⟩
  case untagged =>
    unfold tag at ran
    split at ran
    · cases ran
    · split at ran
      · cases ran
      · cases ran
        exact serve_untagged candidates [] order.eraseDups

/-- The modes agree where nothing is latent: the best readings are the exhaustive ones without the
untagged. In any case the exhaustive mode keeps each candidate that nothing tagged for an earlier
kind bars, and an untagged one is an alternative to a tagged one. -/
theorem tag_modes (order : List Kind) (candidates : List Scored) :
    ((∀ c ∈ candidates, c.node.value.latent = false) →
      (tag .exhaustive order candidates).map (fun out => out.filter (·.tagged)) =
        tag .bestOnly order candidates) ∧
    (∀ out, tag .exhaustive order candidates = .ok out → KeepsAll order candidates out) ∧
    ((∀ c ∈ candidates, c.node.bytes.start ≤ c.node.bytes.stop ∧
        c.node.value.dimension?.isSome = true) →
      ∃ out, tag .exhaustive order candidates = .ok out) := by
  refine ⟨fun plain => (tag_best_only_eq plain order).symm, fun out ran => tag_keeps_all ran, ?_⟩
  intro proper
  exact tag_returns .exhaustive order candidates (fun c member => (proper c member).1)
    fun c member => (proper c member).2

/-- Of the two readings of the 3 in "5% 3" one is an alternative to the other. -/
theorem percent_rivals_modes : ∃ out,
    tag .exhaustive [.percentage, .number, .percentage] percentRivals = .ok out ∧
      out.map (·.tagged) = [true, true, false] ∧
      tag .bestOnly [.percentage, .number, .percentage] percentRivals =
        .ok (out.filter (·.tagged)) ∧
      KeepsAll [.percentage, .number, .percentage] percentRivals out := by
  obtain ⟨agree, keeps, returns⟩ := tag_modes [.percentage, .number, .percentage] percentRivals
  have plain : ∀ c ∈ percentRivals, c.node.value.latent = false := by
    simp [percentRivals, Node.value, Value.latent]
  have proper : ∀ c ∈ percentRivals, c.node.bytes.start ≤ c.node.bytes.stop ∧
      c.node.value.dimension?.isSome = true := by
    simp [percentRivals, Node.bytes, Node.value, Value.dimension?]
  have listed : (tag .exhaustive [.percentage, .number, .percentage] percentRivals).map
      (fun out => out.map (·.tagged)) = .ok [true, true, false] := by
    cbv
  obtain ⟨out, ran⟩ := returns proper
  have best := agree plain
  rw [ran] at best listed
  exact ⟨out, ran, Except.ok.inj listed, best.symm, keeps out ran⟩

end Reckon.Selection

import Reckon.Proofs.Selection.Greedy

/-!
# What the exhaustive mode keeps

With all alternatives wanted, an eligible candidate is left out for one reason only: it overlaps a
candidate tagged for an earlier kind. The two modes tag the same for the kinds before a given one,
as long as nothing latent is tagged for these.
-/

set_option autoImplicit false

namespace Reckon.Selection

def reading (c : Candidate) : Scored × Kind :=
  (⟨c.node, c.score⟩, c.kind)

theorem sweep_readings (kind : Kind) (blocked taken : List Span) (ranked : List Scored) :
    (sweep .exhaustive kind blocked taken ranked).1.map reading =
      (ranked.filter fun s => !blocked.any s.node.bytes.overlaps).map fun s => (s, kind) := by
  induction ranked generalizing taken with
  | nil => rfl
  | cons s rest ih =>
      rw [sweep]
      by_cases earlier : blocked.any s.node.bytes.overlaps = true
      · rw [if_pos earlier, List.filter_cons_of_neg (by simp [earlier])]
        exact ih taken
      · rw [if_neg earlier, List.filter_cons_of_pos (by simp [earlier])]
        split
        · simp only [if_true, List.map_cons, ih taken]
          rfl
        · simp only [List.map_cons, ih (taken ++ [s.node.bytes])]
          rfl

theorem sweep_spans (mode : Selection) (kind : Kind) (blocked taken : List Span)
    (ranked : List Scored) :
    (mode.sweep kind blocked taken ranked).2 =
      taken ++ ((mode.sweep kind blocked taken ranked).1.filter (·.tagged)).map (·.node.bytes) := by
  induction ranked generalizing taken with
  | nil => simp [sweep]
  | cons s rest ih =>
      rw [sweep]
      split
      · exact ih taken
      · split
        · by_cases all : mode = .exhaustive
          · simp only [if_pos all]
            simpa using ih taken
          · simp only [if_neg all]
            exact ih taken
        · simpa using ih (taken ++ [s.node.bytes])

theorem mem_ranked (mode : Selection) (candidates : List Scored) (kind : Kind) (s : Scored) :
    s ∈ mode.ranked kind candidates ↔ s ∈ candidates ∧ s.kind? = some kind ∧
      (mode = .exhaustive ∨ s.node.value.latent = false) := by
  rw [ranked, List.mem_mergeSort, List.mem_filter, is_eligible_iff]
  simp

theorem sweep_kind (mode : Selection) (kind : Kind) (blocked taken : List Span)
    (ranked : List Scored) : ∀ c ∈ (mode.sweep kind blocked taken ranked).1, c.kind = kind := by
  induction ranked generalizing taken with
  | nil => simp [sweep]
  | cons s rest ih =>
      rw [sweep]
      split
      · exact ih taken
      · split
        · simp only
          split
          · exact List.forall_mem_cons.mpr ⟨rfl, ih taken⟩
          · exact ih taken
        · exact List.forall_mem_cons.mpr ⟨rfl, ih _⟩

theorem serve_kind (mode : Selection) (candidates : List Scored) (blocked : List Span)
    (kinds : List Kind) : ∀ c ∈ mode.serve candidates blocked kinds, c.kind ∈ kinds := by
  induction kinds generalizing blocked with
  | nil => simp [serve]
  | cons kind later ih =>
      rw [serve]
      intro c member
      rcases List.mem_append.mp member with here | after
      · rw [sweep_kind mode kind blocked [] _ c here]
        exact List.mem_cons_self
      · exact List.mem_cons_of_mem kind (ih _ c after)

/-- Whether no candidate tagged for a kind earlier than the given one overlaps a span. -/
def Clear (order : List Kind) (out : List Candidate) (kind : Kind) (span : Span) : Prop :=
  ∀ t ∈ out, t.tagged = true → order.idxOf t.kind < order.idxOf kind →
    span.overlaps t.node.bytes = false

instance (order : List Kind) (out : List Candidate) (kind : Kind) (span : Span) :
    Decidable (Clear order out kind span) :=
  inferInstanceAs (Decidable (∀ t ∈ out, t.tagged = true →
    order.idxOf t.kind < order.idxOf kind → span.overlaps t.node.bytes = false))

theorem clear_append (order : List Kind) (left right : List Candidate) (kind : Kind)
    (span : Span) : Clear order (left ++ right) kind span ↔
      Clear order left kind span ∧ Clear order right kind span := by
  simp only [Clear, List.mem_append, or_imp, forall_and]

section Serving

variable {order kinds : List Kind} {candidates : List Scored}

theorem clear_of_first {first : Kind} {later : List Kind}
    (before : ∀ kind ∈ later, order.idxOf first < order.idxOf kind) {out : List Candidate}
    (kinds : ∀ t ∈ out, t.kind ∈ first :: later) (span : Span) : Clear order out first span := by
  intro t member _ earlier
  rcases List.mem_cons.mp (kinds t member) with same | after
  · rw [same] at earlier
    omega
  · have order := before t.kind after
    omega

/-- What serving keeps, in its order: of each kind the ranked candidates that overlap nothing
blocked at the start and nothing tagged for an earlier kind. -/
theorem serve_eq_flat_map (ordered : kinds.Pairwise fun a b => order.idxOf a < order.idxOf b)
    (blocked : List Span) :
    (serve .exhaustive candidates blocked kinds).map reading = kinds.flatMap fun kind =>
      ((ranked .exhaustive kind candidates).filter fun s =>
        !blocked.any s.node.bytes.overlaps &&
          decide (Clear order (serve .exhaustive candidates blocked kinds) kind s.node.bytes)).map
        fun s => (s, kind) := by
  induction kinds generalizing blocked with
  | nil => rfl
  | cons first later ih =>
      obtain ⟨before, orderedLater⟩ := List.pairwise_cons.mp ordered
      have here := sweep_readings first blocked [] (ranked .exhaustive first candidates)
      have spans := sweep_spans .exhaustive first blocked [] (ranked .exhaustive first candidates)
      have keptKind := sweep_kind .exhaustive first blocked []
        (ranked .exhaustive first candidates)
      rw [serve]
      generalize sweep .exhaustive first blocked [] (ranked .exhaustive first candidates) = swept
        at here spans keptKind
      obtain ⟨kept, taken⟩ := swept
      simp only [List.nil_append] at here spans keptKind ⊢
      have rest := ih orderedLater (blocked ++ taken)
      have otherKind := serve_kind .exhaustive candidates (blocked ++ taken) later
      -- for a later kind the spans taken in this sweep are those that its tagged candidates block
      have clearKept : ∀ kind ∈ later, ∀ span : Span,
          Clear order kept kind span ↔ taken.any span.overlaps = false := by
        intro kind after span
        rw [any_overlaps_eq_false, spans]
        constructor
        · intro clear other member
          obtain ⟨t, chosen, same⟩ := List.mem_map.mp member
          obtain ⟨inside, tagged⟩ := List.mem_filter.mp chosen
          rw [← same]
          exact clear t inside tagged (by rw [keptKind t inside]; exact before kind after)
        · intro free t inside tagged _
          exact free _ (List.mem_map_of_mem (List.mem_filter.mpr ⟨inside, tagged⟩))
      have clearFirst : ∀ span : Span,
          Clear order (kept ++ serve .exhaustive candidates (blocked ++ taken) later)
            first span := by
        intro span
        apply clear_of_first before
        intro t member
        rcases List.mem_append.mp member with inside | after
        · rw [keptKind t inside]
          exact List.mem_cons_self
        · exact List.mem_cons_of_mem _ (otherKind t after)
      rw [List.map_append, List.flatMap_cons, here, rest]
      congr 1
      · simp only [clearFirst, decide_true, Bool.and_true]
      · apply List.flatMap_congr
        intro kind after
        congr 2
        funext s
        simp only [List.any_append, Bool.not_or, clear_append, clearKept kind after,
          Bool.decide_and, Bool.decide_eq_false, Bool.and_assoc]

/-- What serving keeps: the eligible candidates that overlap nothing blocked at the start and
nothing tagged for an earlier kind. -/
theorem serve_readings (ordered : kinds.Pairwise fun a b => order.idxOf a < order.idxOf b)
    (blocked : List Span) (s : Scored) (kind : Kind) :
    (s, kind) ∈ (serve .exhaustive candidates blocked kinds).map reading ↔
      kind ∈ kinds ∧ s ∈ candidates ∧ s.kind? = some kind ∧
        blocked.any s.node.bytes.overlaps = false ∧
        Clear order (serve .exhaustive candidates blocked kinds) kind s.node.bytes := by
  rw [serve_eq_flat_map ordered, List.mem_flatMap]
  constructor
  · rintro ⟨_, wanted, member⟩
    obtain ⟨_, kept, same⟩ := List.mem_map.mp member
    obtain ⟨listed, free⟩ := List.mem_filter.mp kept
    obtain ⟨source, known, -⟩ := (mem_ranked _ _ _ _).mp listed
    cases same
    exact ⟨wanted, source, known, by simpa using free⟩
  · rintro ⟨wanted, source, known, free⟩
    have listed := (mem_ranked .exhaustive candidates kind s).mpr ⟨source, known, .inl rfl⟩
    exact ⟨kind, wanted, List.mem_map.mpr ⟨s, List.mem_filter.mpr
        ⟨listed, by simpa using free⟩, rfl⟩⟩

/-- What the exhaustive mode keeps of some candidates: all that are of a wanted kind, except those
that overlap a candidate tagged for an earlier kind. -/
theorem tag_readings {out : List Candidate} (ran : tag .exhaustive order candidates = .ok out)
    (s : Scored) (kind : Kind) :
    (s, kind) ∈ out.map reading ↔
      kind ∈ order ∧ s ∈ candidates ∧ s.kind? = some kind ∧ Clear order out kind s.node.bytes := by
  unfold tag at ran
  split at ran
  · cases ran
  · split at ran
    · cases ran
    · cases ran
      rw [serve_readings (erase_dups_ordered order), List.mem_eraseDups]
      simp

end Serving

/-- What a kept candidate comes from, in either mode. -/
theorem source_of_mem {mode : Selection} {order : List Kind} {candidates : List Scored}
    {out : List Candidate} (ran : mode.tag order candidates = .ok out) {c : Candidate}
    (member : c ∈ out) : ∃ s ∈ candidates, s.node = c.node ∧ s.kind? = some c.kind := by
  cases mode with
  | bestOnly =>
      obtain ⟨s, source, node, -, known, -⟩ :=
        tagged_source ran c member (tag_all_tagged ran c member)
      exact ⟨s, source, node, known⟩
  | exhaustive =>
      obtain ⟨-, source, known, -⟩ :=
        (tag_readings ran ⟨c.node, c.score⟩ c.kind).mp (List.mem_map_of_mem member)
      exact ⟨_, source, rfl, known⟩

theorem Precedes.kind_place_le {order : List Kind} {p q : Scored × Nat}
    (before : Precedes order q p) : kindPlace order q.1 ≤ kindPlace order p.1 := by
  rcases before with earlier | ⟨same, -⟩
  · omega
  · omega

theorem is_eligible_exhaustive {order : List Kind} {s : Scored}
    (eligible : isEligible .bestOnly order s = true) : isEligible .exhaustive order s = true :=
  (is_eligible_iff _ _ _).mpr ⟨((is_eligible_iff _ _ _).mp eligible).1, .inl rfl⟩

/-- The modes tag the same for the kinds before a place in the order, as long as the exhaustive one
tags nothing latent for these. -/
theorem greedy_agree {order : List Kind} {candidates : List Scored} {best all : Set (Scored × Nat)}
    (greedyBest : Greedy .bestOnly order candidates best)
    (greedyAll : Greedy .exhaustive order candidates all) (place : Nat)
    (plain : ∀ p ∈ all, kindPlace order p.1 < place → p.1.node.value.latent = false) :
    ∀ p ∈ all, kindPlace order p.1 < place → p ∈ best := by
  have agree : ∀ p ∈ visits .exhaustive order candidates, kindPlace order p.1 < place →
      (p ∈ all ↔ p ∈ best) := by
    apply visits_induction
    intro p visited earlier early
    obtain ⟨member, eligible⟩ := (mem_visits _ _ _ _).mp visited
    have sooner : ∀ q ∈ candidates.zipIdx, isEligible .exhaustive order q.1 = true →
        Precedes order q p → (q ∈ all ↔ q ∈ best) := by
      intro q inside wanted before
      exact earlier q ((mem_visits _ _ _ _).mpr ⟨inside, wanted⟩) before
        (Nat.lt_of_le_of_lt before.kind_place_le early)
    constructor
    · intro chosen
      have plainly : isEligible .bestOnly order p.1 = true :=
        (is_eligible_iff _ _ _).mpr ⟨((is_eligible_iff _ _ _).mp eligible).1,
          .inr (plain p chosen early)⟩
      refine (greedyBest.exact p member plainly).mpr fun q chosenToo before => ?_
      obtain ⟨inside, wanted⟩ := greedyBest.eligible q chosenToo
      exact (greedyAll.exact p member eligible).mp chosen q
        ((sooner q inside (is_eligible_exhaustive wanted) before).mpr chosenToo) before
    · intro chosen
      obtain ⟨-, plainly⟩ := greedyBest.eligible p chosen
      refine (greedyAll.exact p member eligible).mpr fun q chosenToo before => ?_
      obtain ⟨inside, wanted⟩ := greedyAll.eligible q chosenToo
      exact (greedyBest.exact p member plainly).mp chosen q
        ((sooner q inside wanted before).mp chosenToo) before
  intro p chosen early
  exact (agree p ((mem_visits _ _ _ _).mpr (greedyAll.eligible p chosen)) early).mp chosen

section Runs

variable {order : List Kind} {candidates : List Scored} {best all : List Candidate}

/-- A best reading overlaps nothing that the exhaustive mode tags for an earlier kind, as long as
that mode tags nothing latent for these. -/
theorem clear_of_plain (first : tag .bestOnly order candidates = .ok best)
    (second : tag .exhaustive order candidates = .ok all) {c : Candidate} (member : c ∈ best)
    (plain : ∀ t ∈ all, t.tagged = true → order.idxOf t.kind < order.idxOf c.kind →
      t.node.value.latent = false) : Clear order all c.kind c.node.bytes := by
  have greedyBest := picks_greedy .bestOnly order candidates
  have greedyAll := picks_greedy .exhaustive order candidates
  obtain ⟨p, picked, madeC⟩ :=
    (mem_tagged_iff first c).mp ⟨member, tag_all_tagged first c member⟩
  obtain ⟨kind, known, rfl⟩ := Option.map_eq_some_iff.mp madeC
  have placeP := kind_place_eq order p.1 kind known
  have agree := greedy_agree greedyBest greedyAll (order.idxOf kind) ?_
  · intro t inside tagged earlier
    obtain ⟨q, pickedToo, madeT⟩ := (mem_tagged_iff second t).mp ⟨inside, tagged⟩
    obtain ⟨other, knownToo, rfl⟩ := Option.map_eq_some_iff.mp madeT
    have placeQ := kind_place_eq order q.1 other knownToo
    have chosen := agree q pickedToo (by rw [placeQ]; exact earlier)
    obtain ⟨listed, eligible⟩ := greedyBest.eligible p picked
    exact (greedyBest.exact p listed eligible).mp picked q chosen
      (.inl (by rw [placeP, placeQ]; exact earlier))
  · intro q pickedToo early
    obtain ⟨-, eligible⟩ := greedyAll.eligible q pickedToo
    obtain ⟨⟨other, -, knownToo⟩, -⟩ := (is_eligible_iff _ _ _).mp eligible
    rw [kind_place_eq order q.1 other knownToo] at early
    have made : asTagged q = some ⟨q.1.node, q.1.score, other, true⟩ := by
      rw [asTagged, knownToo]
      rfl
    obtain ⟨inside, tagged⟩ := (mem_tagged_iff second _).mpr ⟨q, pickedToo, made⟩
    exact plain _ inside tagged early

end Runs

end Reckon.Selection

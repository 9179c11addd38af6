import Reckon.Proofs.Selection.Visits
import Mathlib.Data.Set.Defs

/-!
# Selection is greedy

There is one set of eligible candidates that holds a candidate exactly if it overlaps none that
comes before it and is held. The tagged candidates are those of this set, in the order of visits.
-/

set_option autoImplicit false

namespace Reckon

namespace Selection

def spanOf (p : Scored × Nat) : Span :=
  p.1.node.bytes

/-- A set of eligible occurrences that holds one exactly if it overlaps none before it that is
held. -/
structure Greedy (mode : Selection) (order : List Kind) (candidates : List Scored)
    (chosen : Set (Scored × Nat)) : Prop where
  eligible : ∀ p ∈ chosen, p ∈ candidates.zipIdx ∧ mode.isEligible order p.1 = true
  exact : ∀ p ∈ candidates.zipIdx, mode.isEligible order p.1 = true →
    (p ∈ chosen ↔ ∀ q ∈ chosen, Precedes order q p → (spanOf p).overlaps (spanOf q) = false)

/-- One pass over the visits that picks what overlaps nothing taken so far. -/
def picks : List Span → List (Scored × Nat) → List (Scored × Nat)
  | _, [] => []
  | taken, p :: rest =>
    if taken.any (spanOf p).overlaps then picks taken rest
    else p :: picks (taken ++ [spanOf p]) rest

theorem picks_sublist (taken : List Span) (places : List (Scored × Nat)) :
    (picks taken places).Sublist places := by
  induction places generalizing taken with
  | nil => simp [picks]
  | cons p rest ih =>
      rw [picks]
      split
      · exact (ih taken).cons p
      · exact (ih _).cons_cons p

theorem picks_append (taken : List Span) (left right : List (Scored × Nat)) :
    picks taken (left ++ right) =
      picks taken left ++ picks (taken ++ (picks taken left).map spanOf) right := by
  induction left generalizing taken with
  | nil => simp [picks]
  | cons p rest ih =>
      rw [List.cons_append, picks, picks]
      split
      · exact ih taken
      · rw [ih, List.map_cons, List.cons_append, List.append_assoc, List.singleton_append]

theorem any_overlaps_eq_false (span : Span) (taken : List Span) :
    taken.any span.overlaps = false ↔ ∀ other ∈ taken, span.overlaps other = false := by
  rw [List.any_eq_false]
  simp

theorem picks_clear (taken : List Span) (places : List (Scored × Nat)) :
    ∀ p ∈ picks taken places, ∀ other ∈ taken, (spanOf p).overlaps other = false := by
  induction places generalizing taken with
  | nil => simp [picks]
  | cons p rest ih =>
      rw [picks]
      split
      · exact ih taken
      · rename_i free
        intro q member other before
        rcases List.mem_cons.mp member with same | later
        · rw [same]
          exact (any_overlaps_eq_false _ _).mp (by simpa using free) other before
        · exact ih _ q later other (by simp [before])

theorem picks_apart (taken : List Span) (places : List (Scored × Nat)) :
    (picks taken places).Pairwise fun p q => (spanOf p).overlaps (spanOf q) = false := by
  induction places generalizing taken with
  | nil => simp [picks]
  | cons p rest ih =>
      rw [picks]
      split
      · exact ih taken
      · rw [List.pairwise_cons]
        refine ⟨?_, ih _⟩
        intro q later
        rw [Span.overlaps_comm]
        exact picks_clear _ _ q later (spanOf p) (by simp)

theorem not_mem_rest {order : List Kind} {p : Scored × Nat} {rest : List (Scored × Nat)}
    (ordered : (p :: rest).Pairwise (Precedes order)) : p ∉ rest :=
  fun again => precedes_irrefl order p ((List.pairwise_cons.mp ordered).1 p again)

theorem first_mem_picks_iff (order : List Kind) (taken : List Span) (p : Scored × Nat)
    (rest : List (Scored × Nat)) (ordered : (p :: rest).Pairwise (Precedes order)) :
    p ∈ picks taken (p :: rest) ↔ (∀ other ∈ taken, (spanOf p).overlaps other = false) ∧
      ∀ q ∈ picks taken (p :: rest), Precedes order q p →
        (spanOf p).overlaps (spanOf q) = false := by
  have unpreceded : ∀ q ∈ picks taken (p :: rest), ¬Precedes order q p := by
    intro q member before
    rcases List.mem_cons.mp ((picks_sublist taken (p :: rest)).subset member) with same | after
    · rw [same] at before
      exact precedes_irrefl order p before
    · exact precedes_asymm order q p before ((List.pairwise_cons.mp ordered).1 q after)
  have alone : (∀ q ∈ picks taken (p :: rest), Precedes order q p →
      (spanOf p).overlaps (spanOf q) = false) := fun q member before =>
    absurd before (unpreceded q member)
  rw [and_iff_left alone, ← any_overlaps_eq_false, picks]
  split
  · rename_i blocked
    have absent : p ∉ picks taken rest := fun member =>
      not_mem_rest ordered ((picks_sublist taken rest).subset member)
    simp [absent, blocked]
  · rename_i free
    simpa using free

/-- Over visits in order, one is picked exactly if it overlaps nothing taken and nothing picked
before it. -/
theorem mem_picks_iff (order : List Kind) (taken : List Span) (places : List (Scored × Nat))
    (ordered : places.Pairwise (Precedes order)) (p : Scored × Nat) (visited : p ∈ places) :
    p ∈ picks taken places ↔ (∀ other ∈ taken, (spanOf p).overlaps other = false) ∧
      ∀ q ∈ picks taken places, Precedes order q p → (spanOf p).overlaps (spanOf q) = false := by
  induction places generalizing taken with
  | nil => simp at visited
  | cons first rest ih =>
      rcases List.mem_cons.mp visited with same | later
      · subst same
        exact first_mem_picks_iff order taken p rest ordered
      · have differs : p ≠ first := fun same => not_mem_rest ordered (same ▸ later)
        rw [List.pairwise_cons] at ordered
        have before := ordered.1 p later
        rw [picks]
        split
        · exact ih taken ordered.2 later
        · rw [List.mem_cons, or_iff_right differs, ih _ ordered.2 later]
          constructor
          · rintro ⟨clear, apart⟩
            refine ⟨fun other member => clear other (by simp [member]), ?_⟩
            intro q member ahead
            rcases List.mem_cons.mp member with same | picked
            · rw [same]
              exact clear (spanOf first) (by simp)
            · exact apart q picked ahead
          · rintro ⟨clear, apart⟩
            refine ⟨?_, fun q picked ahead => apart q (by simp [picked]) ahead⟩
            intro other member
            rcases List.mem_append.mp member with old | new
            · exact clear other old
            · rw [List.mem_singleton.mp new]
              exact apart first (by simp) before

/-! The set is unique. -/

theorem picks_greedy (mode : Selection) (order : List Kind) (candidates : List Scored) :
    Greedy mode order candidates {p | p ∈ picks [] (mode.visits order candidates)} := by
  have ordered := visits_ordered mode order candidates
  constructor
  · intro p picked
    exact (mem_visits mode order candidates p).mp ((picks_sublist _ _).subset picked)
  · intro p member eligible
    have visited := (mem_visits mode order candidates p).mpr ⟨member, eligible⟩
    have chosen := mem_picks_iff order [] _ ordered p visited
    constructor
    · intro picked
      exact (chosen.mp picked).2
    · intro apart
      exact chosen.mpr ⟨by simp, apart⟩

/-- What holds of a visit if it holds of all visits that precede it holds of every visit. -/
theorem visits_induction {mode : Selection} {order : List Kind} {candidates : List Scored}
    {P : Scored × Nat → Prop}
    (step : ∀ p ∈ mode.visits order candidates,
      (∀ q ∈ mode.visits order candidates, Precedes order q p → P q) → P p) :
    ∀ p ∈ mode.visits order candidates, P p := by
  have ordered := visits_ordered mode order candidates
  have each : ∀ (n : Nat) (p : Scored × Nat), (mode.visits order candidates)[n]? = some p →
      P p := by
    intro n
    induction n using Nat.strongRecOn with
    | ind n ih =>
        intro p here
        apply step p (List.mem_of_getElem? here)
        intro q member before
        obtain ⟨m, there⟩ := List.getElem?_of_mem member
        by_cases ahead : m < n
        · exact ih m ahead q there
        · exfalso
          obtain ⟨insideM, atM⟩ := List.getElem?_eq_some_iff.mp there
          obtain ⟨insideN, atN⟩ := List.getElem?_eq_some_iff.mp here
          by_cases same : m = n
          · subst same
            rw [here] at there
            cases there
            exact precedes_irrefl order _ before
          · have after := List.pairwise_iff_getElem.mp ordered n m insideN insideM (by omega)
            rw [atM, atN] at after
            exact precedes_asymm order q p before after
  intro p member
  obtain ⟨n, here⟩ := List.getElem?_of_mem member
  exact each n p here

theorem greedy_unique {mode : Selection} {order : List Kind} {candidates : List Scored}
    {left right : Set (Scored × Nat)} (greedyLeft : Greedy mode order candidates left)
    (greedyRight : Greedy mode order candidates right) : left = right := by
  have agree : ∀ p ∈ mode.visits order candidates, (p ∈ left ↔ p ∈ right) := by
    apply visits_induction
    intro p visited earlier
    obtain ⟨member, eligible⟩ := (mem_visits _ _ _ _).mp visited
    rw [greedyLeft.exact p member eligible, greedyRight.exact p member eligible]
    constructor
    · intro free q chosen before
      have known := (mem_visits _ _ _ _).mpr (greedyRight.eligible q chosen)
      exact free q ((earlier q known before).mpr chosen) before
    · intro free q chosen before
      have known := (mem_visits _ _ _ _).mpr (greedyLeft.eligible q chosen)
      exact free q ((earlier q known before).mp chosen) before
  ext p
  constructor
  · intro chosen
    exact (agree p ((mem_visits _ _ _ _).mpr (greedyLeft.eligible p chosen))).mp chosen
  · intro chosen
    exact (agree p ((mem_visits _ _ _ _).mpr (greedyRight.eligible p chosen))).mpr chosen

/-! The loops make the pass. -/

def asTagged (p : Scored × Nat) : Option Candidate :=
  p.1.kind?.map fun kind => ⟨p.1.node, p.1.score, kind, true⟩

theorem sweep_picks (mode : Selection) (kind : Kind) (blocked taken : List Span)
    (places : List (Scored × Nat)) (known : ∀ p ∈ places, p.1.kind? = some kind) :
    (((mode.sweep kind blocked taken (places.map (·.1))).1.filter (·.tagged)).map some =
        (picks (blocked ++ taken) places).map asTagged) ∧
      (mode.sweep kind blocked taken (places.map (·.1))).2 =
        taken ++ (picks (blocked ++ taken) places).map spanOf := by
  induction places generalizing taken with
  | nil => simp [sweep, picks]
  | cons p rest ih =>
      have knownRest := fun q member => known q (List.mem_cons_of_mem p member)
      have span : spanOf p = p.1.node.bytes := rfl
      rw [List.map_cons, sweep, picks, List.any_append, span]
      by_cases earlier : blocked.any p.1.node.bytes.overlaps = true
      · rw [if_pos earlier, earlier, Bool.true_or, if_pos rfl]
        exact ih taken knownRest
      · rw [if_neg earlier]
        by_cases own : taken.any p.1.node.bytes.overlaps = true
        · rw [if_pos own, own, Bool.or_true, if_pos rfl]
          have untagged := ih taken knownRest
          by_cases all : mode = .exhaustive
          · simp only [if_pos all]
            simpa using untagged
          · simp only [if_neg all]
            exact untagged
        · rw [if_neg own]
          have free : (blocked.any p.1.node.bytes.overlaps ||
              taken.any p.1.node.bytes.overlaps) = false := by
            simp_all
          obtain ⟨tagged, spans⟩ := ih (taken ++ [p.1.node.bytes]) knownRest
          have here := known p List.mem_cons_self
          rw [if_neg (by simp [free]), List.append_assoc]
          constructor
          · simp only [List.filter_cons_of_pos, List.map_cons, tagged, asTagged, here]
            simp
          · simp only [spans, List.map_cons, span]
            simp

theorem serve_picks (mode : Selection) (candidates : List Scored) (blocked : List Span)
    (kinds : List Kind) :
    ((mode.serve candidates blocked kinds).filter (·.tagged)).map some =
      (picks blocked (kinds.flatMap (mode.rankedPlaces candidates))).map asTagged := by
  induction kinds generalizing blocked with
  | nil => simp [serve, picks]
  | cons kind later ih =>
      have known : ∀ p ∈ mode.rankedPlaces candidates kind, p.1.kind? = some kind :=
        fun p member => ((mem_ranked_places _ _ _ _).mp member).2.1
      obtain ⟨tagged, spans⟩ := sweep_picks mode kind blocked [] _ known
      rw [List.append_nil] at tagged spans
      rw [serve, ← map_ranked_places]
      simp only
      rw [List.filter_append, List.map_append, tagged, spans, List.nil_append, ih,
        List.flatMap_cons, picks_append, List.map_append]

theorem tag_picks {mode : Selection} {order : List Kind} {candidates : List Scored}
    {out : List Candidate} (ran : mode.tag order candidates = .ok out) :
    (out.filter (·.tagged)).map some = (picks [] (mode.visits order candidates)).map asTagged := by
  unfold tag at ran
  split at ran
  · cases ran
  · split at ran
    · cases ran
    · cases ran
      exact serve_picks mode candidates [] order.eraseDups

theorem tag_returns (mode : Selection) (order : List Kind) (candidates : List Scored)
    (proper : ∀ c ∈ candidates, c.node.bytes.start ≤ c.node.bytes.stop)
    (dimensions : ∀ c ∈ candidates, c.node.value.dimension?.isSome = true) :
    ∃ out, mode.tag order candidates = .ok out := by
  unfold tag
  split
  · rename_i missing
    obtain ⟨c, member, none⟩ := List.any_eq_true.mp missing
    have known := dimensions c member
    simp_all
  · split
    · rename_i backward
      obtain ⟨c, member, negative⟩ := List.any_eq_true.mp backward
      have forward := proper c member
      have short := of_decide_eq_true (Bool.and_eq_true_iff.mp negative).2
      unfold Scored.byteLength at short
      omega
    · exact ⟨_, rfl⟩

/-- The tagged candidates overlap pairwise nowhere. -/
theorem tagged_apart {mode : Selection} {order : List Kind} {candidates : List Scored}
    {out : List Candidate} (ran : mode.tag order candidates = .ok out) :
    (out.filter (·.tagged)).Pairwise fun a b => a.node.bytes.overlaps b.node.bytes = false := by
  have listed : ((out.filter (·.tagged)).map some).Pairwise fun a b =>
      ∀ c d, a = some c → b = some d → c.node.bytes.overlaps d.node.bytes = false := by
    rw [tag_picks ran]
    apply List.pairwise_map.mpr
    apply (picks_apart [] (mode.visits order candidates)).imp
    intro p q apart c d first second
    obtain ⟨kind, -, same⟩ := Option.map_eq_some_iff.mp first
    obtain ⟨other, -, alike⟩ := Option.map_eq_some_iff.mp second
    rw [← same, ← alike]
    exact apart
  apply (List.pairwise_map.mp listed).imp
  intro c d apart
  exact apart c d rfl rfl

theorem sweep_all_tagged (kind : Kind) (blocked taken : List Span) (ranked : List Scored) :
    ∀ c ∈ (sweep .bestOnly kind blocked taken ranked).1, c.tagged = true := by
  induction ranked generalizing taken with
  | nil => simp [sweep]
  | cons c rest ih =>
      rw [sweep]
      split
      · exact ih taken
      · split
        · exact ih taken
        · intro other member
          rcases List.mem_cons.mp member with same | later
          · rw [same]
          · exact ih _ other later

theorem serve_all_tagged (candidates : List Scored) (blocked : List Span) (kinds : List Kind) :
    ∀ c ∈ serve .bestOnly candidates blocked kinds, c.tagged = true := by
  induction kinds generalizing blocked with
  | nil => simp [serve]
  | cons kind later ih =>
      rw [serve]
      intro c member
      rcases List.mem_append.mp member with first | rest
      · exact sweep_all_tagged kind blocked [] _ c first
      · exact ih _ c rest

theorem tag_all_tagged {order : List Kind} {candidates : List Scored} {out : List Candidate}
    (ran : tag .bestOnly order candidates = .ok out) : ∀ c ∈ out, c.tagged = true := by
  unfold tag at ran
  split at ran
  · cases ran
  · split at ran
    · cases ran
    · cases ran
      exact serve_all_tagged candidates [] order.eraseDups

/-- The tagged candidates are those of the occurrences picked. -/
theorem mem_tagged_iff {mode : Selection} {order : List Kind} {candidates : List Scored}
    {out : List Candidate} (ran : mode.tag order candidates = .ok out) (c : Candidate) :
    c ∈ out ∧ c.tagged = true ↔
      ∃ p ∈ picks [] (mode.visits order candidates), asTagged p = some c := by
  have listed : c ∈ out ∧ c.tagged = true ↔ some c ∈ (out.filter (·.tagged)).map some := by
    simp
  rw [listed, tag_picks ran, List.mem_map]

/-- What a tagged candidate comes from. -/
theorem tagged_source {mode : Selection} {order : List Kind} {candidates : List Scored}
    {out : List Candidate} (ran : mode.tag order candidates = .ok out) (c : Candidate)
    (member : c ∈ out) (tagged : c.tagged = true) :
    ∃ s ∈ candidates, s.node = c.node ∧ s.score = c.score ∧ s.kind? = some c.kind ∧
      mode.isEligible order s = true := by
  obtain ⟨p, picked, made⟩ := (mem_tagged_iff ran c).mp ⟨member, tagged⟩
  obtain ⟨kind, known, same⟩ := Option.map_eq_some_iff.mp made
  obtain ⟨inside, eligible⟩ := (mem_visits _ _ _ _).mp ((picks_sublist _ _).subset picked)
  have source : p.1 ∈ candidates := List.fst_mem_of_mem_zipIdx inside
  subst same
  exact ⟨p.1, source, rfl, rfl, known, eligible⟩

theorem picks_blocked {taken : List Span} {places : List (Scored × Nat)}
    (blocked : ∀ p ∈ places, taken.any (spanOf p).overlaps = true) : picks taken places = [] := by
  induction places with
  | nil => rfl
  | cons p rest ih =>
      rw [picks, if_pos (blocked p List.mem_cons_self)]
      exact ih fun q member => blocked q (List.mem_cons_of_mem p member)

theorem Precedes.byte_length_le {order : List Kind} {a b : Scored × Nat} {kind : Kind}
    (before : Precedes order a b) (left : a.1.kind? = some kind) (right : b.1.kind? = some kind) :
    b.1.byteLength ≤ a.1.byteLength := by
  have places := kind_place_eq order a.1 kind left
  rw [← kind_place_eq order b.1 kind right] at places
  rcases before with earlier | ⟨-, ranks, -⟩
  · omega
  · rw [Scored.ranks_before_iff] at ranks
    omega

/-- A best reading that spans all candidates is the only one of its kind. -/
theorem tag_whole {kind : Kind} {candidates : List Scored} {out : List Candidate}
    (ran : tag .bestOnly [kind] candidates = .ok out) {whole : Span}
    (inside : ∀ c ∈ candidates, c.node.bytes.start < c.node.bytes.stop ∧
      whole.start ≤ c.node.bytes.start ∧ c.node.bytes.stop ≤ whole.stop)
    (spans : ∃ c ∈ candidates, isEligible .bestOnly [kind] c = true ∧ c.node.bytes = whole) :
    ∃ c, out = [c] ∧ c.node.bytes = whole := by
  have listed := tag_picks ran
  rw [List.filter_eq_self.mpr (tag_all_tagged ran)] at listed
  have ordered := visits_ordered .bestOnly [kind] candidates
  have own : ∀ p ∈ visits .bestOnly [kind] candidates,
      p.1 ∈ candidates ∧ p.1.kind? = some kind := by
    intro p visited
    obtain ⟨member, eligible⟩ := (mem_visits _ _ _ _).mp visited
    obtain ⟨⟨other, wanted, known⟩, -⟩ := (is_eligible_iff _ _ _).mp eligible
    rw [List.mem_singleton.mp wanted] at known
    exact ⟨List.fst_mem_of_mem_zipIdx member, known⟩
  obtain ⟨c, member, eligible, same⟩ := spans
  obtain ⟨i, place⟩ := List.getElem?_of_mem member
  have visited : (c, i) ∈ visits .bestOnly [kind] candidates :=
    (mem_visits _ _ _ _).mpr ⟨List.mem_zipIdx_iff_getElem?.mpr place, eligible⟩
  cases ranked : visits .bestOnly [kind] candidates with
  | nil =>
      rw [ranked] at visited
      cases visited
  | cons p rest =>
      rw [ranked] at listed ordered own visited
      obtain ⟨source, known⟩ := own p List.mem_cons_self
      have first : spanOf p = whole := by
        rcases List.mem_cons.mp visited with rfl | later
        · exact same
        · have before := (List.pairwise_cons.mp ordered).1 (c, i) later
          have longest := before.byte_length_le known (own (c, i) visited).2
          obtain ⟨-, start, stop⟩ := inside p.1 source
          simp only [Scored.byteLength, same] at longest
          rw [spanOf, Span.mk.injEq]
          omega
      have blocked : picks [whole] rest = [] := by
        apply picks_blocked
        intro q later
        obtain ⟨nonempty, start, stop⟩ := inside q.1 (own q (List.mem_cons_of_mem p later)).1
        simp only [List.any_cons, List.any_nil, Bool.or_false, spanOf, Span.overlaps,
          Bool.and_eq_true, decide_eq_true_eq]
        omega
      rw [picks, List.any_nil, if_neg Bool.false_ne_true, List.nil_append, first, blocked,
        List.map_singleton] at listed
      obtain ⟨d, rfl, here⟩ := List.map_eq_singleton_iff.mp listed
      obtain ⟨_, _, made⟩ := Option.map_eq_some_iff.mp here.symm
      exact ⟨d, rfl, by rw [← made]; exact first⟩

/-- Selection is greedy: exactly one set of eligible occurrences holds those that overlap nothing
held before them, and the tagged candidates are those of this set, once each and in the order of
visits. Hence they lie apart, and what is left out overlaps one that comes before it. -/
theorem tag_greedy (mode : Selection) (order : List Kind) (candidates : List Scored)
    (proper : ∀ c ∈ candidates, c.node.bytes.start ≤ c.node.bytes.stop)
    (dimensions : ∀ c ∈ candidates, c.node.value.dimension?.isSome = true) :
    ∃ (out : List Candidate) (places : List (Scored × Nat)),
      mode.tag order candidates = .ok out ∧
      (∀ chosen, Greedy mode order candidates chosen ↔ chosen = {p | p ∈ places}) ∧
      places.Pairwise (Precedes order) ∧
      (out.filter (·.tagged)).map some = places.map asTagged ∧
      (out.filter (·.tagged)).Pairwise (fun a b =>
        a.node.bytes.overlaps b.node.bytes = false) ∧
      ∀ p ∈ candidates.zipIdx, mode.isEligible order p.1 = true → p ∉ places →
        ∃ q ∈ places, Precedes order q p ∧ (spanOf p).overlaps (spanOf q) = true := by
  obtain ⟨out, ran⟩ := tag_returns mode order candidates proper dimensions
  have greedy := picks_greedy mode order candidates
  refine ⟨out, picks [] (mode.visits order candidates), ran, ?_,
    (visits_ordered mode order candidates).sublist (picks_sublist _ _), tag_picks ran,
    tagged_apart ran, ?_⟩
  · intro chosen
    constructor
    · intro other
      exact greedy_unique other greedy
    · intro same
      rw [same]
      exact greedy
  · intro p member eligible left
    by_contra none
    apply left
    refine (greedy.exact p member eligible).mpr ?_
    intro q picked before
    by_contra overlapping
    exact none ⟨q, picked, before, by simpa using overlapping⟩

def percentRivals : List Scored :=
  let node := fun (start stop : Int) (v : Value) =>
    Node.mk "rival" ⟨start, stop⟩ ⟨start, stop⟩ v []
  [⟨node 0 1 (.number ⟨.int 5, none, false, false, false⟩), .finite 0⟩,
    ⟨node 0 2 (.percentage ⟨.int 5, false⟩), .finite (-7)⟩,
    ⟨node 3 4 (.number ⟨.int 3, none, false, false, false⟩), .negInfinity⟩,
    ⟨node 3 4 (.number ⟨.int 3, none, false, false, false⟩), .negInfinity⟩]

theorem percent_rivals_greedy : ∃ (out : List Candidate) (places : List (Scored × Nat)),
    tag .exhaustive [.percentage, .number, .percentage] percentRivals = .ok out ∧
      (∀ chosen, Greedy .exhaustive [.percentage, .number, .percentage] percentRivals chosen ↔
        chosen = {p | p ∈ places}) ∧
      places.Pairwise (Precedes [.percentage, .number, .percentage]) ∧
      (out.filter (·.tagged)).map some = places.map asTagged ∧
      (out.filter (·.tagged)).Pairwise (fun a b =>
        a.node.bytes.overlaps b.node.bytes = false) ∧
      ∀ p ∈ percentRivals.zipIdx,
        isEligible .exhaustive [.percentage, .number, .percentage] p.1 = true → p ∉ places →
          ∃ q ∈ places, Precedes [.percentage, .number, .percentage] q p ∧
            (spanOf p).overlaps (spanOf q) = true :=
  tag_greedy .exhaustive [.percentage, .number, .percentage] percentRivals
    (by simp [percentRivals, Node.bytes]) (by simp [percentRivals, Node.value, Value.dimension?])

end Selection

end Reckon

import Reckon.Selection
import Mathlib.Data.List.Nodup

/-!
# The order of visits

Selection visits eligible candidates by the first place of their kind in the order of priority, then
by rank, then by their place in the input. A candidate with its place stands for one occurrence, so
that equal candidates are kept apart.
-/

set_option autoImplicit false

namespace Reckon

namespace Score

/-- A score as two numbers that are compared from left to right, the lower the better. -/
def descent : Score → Int × Int
  | finite units => (0, -units)
  | negInfinity => (1, 0)

theorem eq_iff_descent (a b : Score) :
    a = b ↔ a.descent.1 = b.descent.1 ∧ a.descent.2 = b.descent.2 := by
  cases a <;> cases b <;> simp [descent]

theorem le_iff_descent (a b : Score) :
    a.le b = true ↔ b.descent.1 < a.descent.1 ∨
      b.descent.1 = a.descent.1 ∧ b.descent.2 ≤ a.descent.2 := by
  cases a <;> cases b <;> simp [le, descent]

end Score

namespace Scored

/-- Ranks are compared from left to right. -/
theorem ranks_before_iff (a b : Scored) : a.ranksBefore b = true ↔
    b.byteLength < a.byteLength ∨ a.byteLength = b.byteLength ∧
      (a.score.descent.1 < b.score.descent.1 ∨ a.score.descent.1 = b.score.descent.1 ∧
        (a.score.descent.2 < b.score.descent.2 ∨ a.score.descent.2 = b.score.descent.2 ∧
          (a.node.height < b.node.height ∨ a.node.height = b.node.height ∧
            (a.node.size < b.node.size ∨ a.node.size = b.node.size ∧
              a.node.bytes.start ≤ b.node.bytes.start)))) := by
  unfold ranksBefore
  have equal := Score.eq_iff_descent a.score b.score
  have lower := Score.le_iff_descent b.score a.score
  split_ifs with length score height size
  · rw [decide_eq_true_iff]
    omega
  · rw [Ne, equal] at score
    rw [lower]
    omega
  · rw [Ne, equal, not_not] at score
    rw [decide_eq_true_iff]
    omega
  · rw [Ne, equal, not_not] at score
    rw [decide_eq_true_iff]
    omega
  · rw [Ne, equal, not_not] at score
    rw [decide_eq_true_iff]
    omega

theorem ranks_before_total (a b : Scored) : (a.ranksBefore b || b.ranksBefore a) = true := by
  rw [Bool.or_eq_true, ranks_before_iff, ranks_before_iff]
  omega

theorem ranks_before_trans (a b c : Scored) (first : a.ranksBefore b = true)
    (second : b.ranksBefore c = true) : a.ranksBefore c = true := by
  rw [ranks_before_iff] at *
  omega

theorem ranks_before_refl (a : Scored) : a.ranksBefore a = true := by
  rw [ranks_before_iff]
  omega

end Scored

namespace Selection

def kindPlace (order : List Kind) (c : Scored) : Nat :=
  match c.kind? with
  | some kind => order.idxOf kind
  | none => order.length

/-- One occurrence comes before another: its kind is wanted earlier, or it ranks before it, or it
stands before it in the input. -/
def Precedes (order : List Kind) (a b : Scored × Nat) : Prop :=
  kindPlace order a.1 < kindPlace order b.1 ∨
    kindPlace order a.1 = kindPlace order b.1 ∧ a.1.ranksBefore b.1 = true ∧
      (b.1.ranksBefore a.1 = true → a.2 < b.2)

theorem precedes_irrefl (order : List Kind) (a : Scored × Nat) : ¬Precedes order a a := by
  rintro (before | ⟨-, -, earlier⟩)
  · omega
  · exact Nat.lt_irrefl _ (earlier a.1.ranks_before_refl)

theorem precedes_asymm (order : List Kind) (a b : Scored × Nat) (before : Precedes order a b) :
    ¬Precedes order b a := by
  rintro (after | ⟨same, back, earlier⟩)
  · rcases before with kinds | ⟨same, -⟩
    · omega
    · omega
  · rcases before with kinds | ⟨-, forth, later⟩
    · omega
    · have first := earlier forth
      have second := later back
      omega

/-! The visits. -/

def rankedPlaces (mode : Selection) (candidates : List Scored) (kind : Kind) :
    List (Scored × Nat) :=
  (candidates.zipIdx.filter fun p => mode.isEligible [kind] p.1).mergeSort fun a b =>
    a.1.ranksBefore b.1

def visits (mode : Selection) (order : List Kind) (candidates : List Scored) :
    List (Scored × Nat) :=
  order.eraseDups.flatMap (mode.rankedPlaces candidates)

theorem map_ranked_places (mode : Selection) (candidates : List Scored) (kind : Kind) :
    (mode.rankedPlaces candidates kind).map (·.1) = mode.ranked kind candidates := by
  unfold rankedPlaces ranked
  rw [List.map_mergeSort (s := Scored.ranksBefore) (fun a _ b _ => rfl)]
  have places : candidates = candidates.zipIdx.map (·.1) := by simp
  conv_rhs => rw [places, List.filter_map]
  rfl

theorem is_eligible_iff (mode : Selection) (order : List Kind) (c : Scored) :
    mode.isEligible order c = true ↔ (∃ kind ∈ order, c.kind? = some kind) ∧
      (mode = .exhaustive ∨ c.node.value.latent = false) := by
  unfold isEligible
  cases c.kind? with
  | none => simp
  | some kind => simp

theorem mem_ranked_places (mode : Selection) (candidates : List Scored) (kind : Kind)
    (p : Scored × Nat) :
    p ∈ mode.rankedPlaces candidates kind ↔ p ∈ candidates.zipIdx ∧ p.1.kind? = some kind ∧
      (mode = .exhaustive ∨ p.1.node.value.latent = false) := by
  unfold rankedPlaces
  rw [List.mem_mergeSort, List.mem_filter, is_eligible_iff]
  simp

theorem mem_visits (mode : Selection) (order : List Kind) (candidates : List Scored)
    (p : Scored × Nat) :
    p ∈ mode.visits order candidates ↔
      p ∈ candidates.zipIdx ∧ mode.isEligible order p.1 = true := by
  unfold visits
  rw [List.mem_flatMap, is_eligible_iff]
  constructor
  · rintro ⟨kind, wanted, here⟩
    obtain ⟨member, known, plain⟩ := (mem_ranked_places _ _ _ _).mp here
    exact ⟨member, ⟨kind, List.mem_eraseDups.mp wanted, known⟩, plain⟩
  · rintro ⟨member, ⟨kind, wanted, known⟩, plain⟩
    exact ⟨kind, List.mem_eraseDups.mpr wanted,
      (mem_ranked_places _ _ _ _).mpr ⟨member, known, plain⟩⟩

theorem zip_idx_ordered {β : Type} (items : List β) (first : Nat) :
    (items.zipIdx first).Pairwise fun a b => a.2 < b.2 := by
  induction items generalizing first with
  | nil => simp
  | cons item items ih =>
      rw [List.zipIdx_cons, List.pairwise_cons]
      refine ⟨?_, ih (first + 1)⟩
      rintro ⟨later, place⟩ member
      obtain ⟨bound, -, -⟩ := List.mem_zipIdx member
      exact bound

theorem pair_sublist {β : Type} (places : List (β × Nat))
    (ordered : places.Pairwise fun a b => a.2 < b.2) (a b : β × Nat) (left : a ∈ places)
    (right : b ∈ places) (earlier : a.2 < b.2) : [a, b].Sublist places := by
  induction places with
  | nil => simp at left
  | cons head rest ih =>
      rw [List.pairwise_cons] at ordered
      rcases List.mem_cons.mp right with same | rightLater
      · rcases List.mem_cons.mp left with alike | leftLater
        · rw [same, alike] at earlier
          omega
        · have behind := ordered.1 a leftLater
          rw [same] at earlier
          omega
      · rcases List.mem_cons.mp left with alike | leftLater
        · rw [alike]
          exact (List.singleton_sublist.mpr rightLater).cons_cons head
        · exact (ih ordered.2 leftLater rightLater).cons head

theorem not_both_orders {β : Type} {items : List β} (once : items.Nodup) {a b : β}
    (ahead : [a, b].Sublist items) (back : [b, a].Sublist items) : False := by
  induction items with
  | nil => simp at ahead
  | cons head rest ih =>
      rw [List.nodup_cons] at once
      cases ahead with
      | cons _ aheadLater =>
          cases back with
          | cons _ backLater => exact ih once.2 aheadLater backLater
          | cons_cons _ backLater => exact once.1 (aheadLater.subset (by simp))
      | cons_cons _ aheadLater =>
          cases back with
          | cons _ backLater => exact once.1 (backLater.subset (by simp))
          | cons_cons _ backLater => exact once.1 (aheadLater.subset (by simp))

theorem ranked_places_ordered (mode : Selection) (candidates : List Scored) (kind : Kind) :
    (mode.rankedPlaces candidates kind).Pairwise fun a b =>
      a.1.ranksBefore b.1 = true ∧ (b.1.ranksBefore a.1 = true → a.2 < b.2) := by
  have trans : ∀ a b c : Scored × Nat, a.1.ranksBefore b.1 = true → b.1.ranksBefore c.1 = true →
      a.1.ranksBefore c.1 = true := fun a b c => Scored.ranks_before_trans a.1 b.1 c.1
  have total : ∀ a b : Scored × Nat, (a.1.ranksBefore b.1 || b.1.ranksBefore a.1) = true :=
    fun a b => Scored.ranks_before_total a.1 b.1
  have inputOrder : (candidates.zipIdx.filter fun p => mode.isEligible [kind] p.1).Pairwise
      fun a b => a.2 < b.2 := (zip_idx_ordered candidates 0).filter _
  unfold rankedPlaces
  generalize candidates.zipIdx.filter (fun p => mode.isEligible [kind] p.1) = places at inputOrder
  have sorted := List.pairwise_mergeSort trans total places
  have once : (places.mergeSort fun a b => a.1.ranksBefore b.1).Nodup := by
    rw [(List.mergeSort_perm places _).nodup_iff]
    apply inputOrder.imp
    intro a b earlier same
    rw [same] at earlier
    omega
  rw [List.pairwise_iff_forall_sublist]
  intro a b ahead
  have ranks := List.pairwise_iff_forall_sublist.mp sorted ahead
  refine ⟨ranks, fun back => ?_⟩
  have memberA := List.mem_mergeSort.mp (ahead.subset (by simp : a ∈ [a, b]))
  have memberB := List.mem_mergeSort.mp (ahead.subset (by simp : b ∈ [a, b]))
  have different := List.pairwise_iff_forall_sublist.mp once ahead
  have apart : (places.map (·.2)).Nodup := by
    rw [List.Nodup, List.pairwise_map]
    exact inputOrder.imp fun earlier => Nat.ne_of_lt earlier
  have unequal : a.2 ≠ b.2 := fun same =>
    different (List.inj_on_of_nodup_map apart memberA memberB same)
  by_contra later
  have reversed := pair_sublist places inputOrder b a memberB memberA (by omega)
  exact not_both_orders once ahead (List.pair_sublist_mergeSort trans total back reversed)

theorem idx_of_lt_of_filter (kinds : List Kind) (head a b : Kind) (differsA : a ≠ head)
    (differsB : b ≠ head)
    (before : (kinds.filter fun kind => !kind == head).idxOf a <
      (kinds.filter fun kind => !kind == head).idxOf b) : kinds.idxOf a < kinds.idxOf b := by
  induction kinds with
  | nil => simp at before
  | cons kind kinds ih =>
      rw [List.filter_cons] at before
      by_cases same : kind = head
      · simp only [same, beq_self_eq_true, Bool.not_true, Bool.false_eq_true, if_false] at before
        have tail := ih before
        rw [same, List.idxOf_cons_ne _ differsA.symm, List.idxOf_cons_ne _ differsB.symm]
        omega
      · rw [if_pos (by simpa using same)] at before
        by_cases first : kind = a
        · by_cases second : a = b
          · rw [second] at before
            omega
          · rw [first, List.idxOf_cons_self, List.idxOf_cons_ne _ second]
            omega
        · by_cases second : kind = b
          · rw [second, List.idxOf_cons_self] at before
            omega
          · rw [List.idxOf_cons_ne _ first, List.idxOf_cons_ne _ second] at *
            have tail := ih (by omega)
            omega

/-- Kinds without repetitions come in the order of their first places. -/
theorem erase_dups_ordered (order : List Kind) :
    order.eraseDups.Pairwise fun a b => order.idxOf a < order.idxOf b := by
  generalize size : order.length = n
  induction n using Nat.strongRecOn generalizing order with
  | ind n ih =>
      cases order with
      | nil => simp
      | cons head rest =>
          rw [List.eraseDups_cons, List.pairwise_cons]
          have shorter := List.length_filter_le (fun kind => !kind == head) rest
          rw [List.length_cons] at size
          have tail := ih _ (by omega) (rest.filter fun kind => !kind == head) rfl
          have others : ∀ kind ∈ (rest.filter fun kind => !kind == head).eraseDups,
              kind ≠ head := by
            intro kind member
            rw [List.mem_eraseDups, List.mem_filter] at member
            simpa using member.2
          refine ⟨?_, tail.imp_of_mem ?_⟩
          · intro kind member
            rw [List.idxOf_cons_self, List.idxOf_cons_ne _ (others kind member).symm]
            omega
          · intro a b left right before
            rw [List.idxOf_cons_ne _ (others a left).symm,
              List.idxOf_cons_ne _ (others b right).symm]
            have kept := idx_of_lt_of_filter rest head a b (others a left) (others b right) before
            omega

theorem kind_place_eq (order : List Kind) (c : Scored) (kind : Kind) (known : c.kind? = some kind) :
    kindPlace order c = order.idxOf kind := by
  rw [kindPlace, known]

theorem visits_ordered (mode : Selection) (order : List Kind) (candidates : List Scored) :
    (mode.visits order candidates).Pairwise (Precedes order) := by
  unfold visits
  rw [List.pairwise_flatMap]
  constructor
  · intro kind wanted
    apply (ranked_places_ordered mode candidates kind).imp_of_mem
    intro a b left right ranks
    have kindA := ((mem_ranked_places _ _ _ _).mp left).2.1
    have kindB := ((mem_ranked_places _ _ _ _).mp right).2.1
    right
    rw [kind_place_eq order a.1 kind kindA, kind_place_eq order b.1 kind kindB]
    exact ⟨rfl, ranks⟩
  · apply (erase_dups_ordered order).imp
    intro first second before a left b right
    have kindA := ((mem_ranked_places _ _ _ _).mp left).2.1
    have kindB := ((mem_ranked_places _ _ _ _).mp right).2.1
    left
    rw [kind_place_eq order a.1 first kindA, kind_place_eq order b.1 second kindB]
    exact before

end Selection

end Reckon

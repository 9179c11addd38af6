import Mathlib.Data.List.Basic

/-!
# Stable sorting

Sorting keeps elements of equal rank in the order they came in. So a choice among the elements can
be made before or after, and a finer order imposed first leaves no trace once the list is sorted
anew.
-/

set_option autoImplicit false

namespace Reckon.Sorting

variable {α : Type} {le : α → α → Bool}

theorem merge_sort_cons_eq (trans : ∀ a b c, le a b = true → le b c = true → le a c = true)
    (total : ∀ a b, (le a b || le b a) = true) (a : α) (l : List α) :
    (a :: l).mergeSort le =
      ((l.mergeSort le).filter fun b => !le a b) ++
        a :: (l.mergeSort le).filter fun b => le a b := by
  obtain ⟨before, after, sorted, rest, less⟩ := List.mergeSort_cons trans total a l
  have ordered := List.pairwise_mergeSort trans total (a :: l)
  rw [sorted] at ordered ⊢
  have more : ∀ b ∈ after, le a b = true :=
    (List.pairwise_cons.mp (List.pairwise_append.mp ordered).2.1).1
  have firsts : (before.filter fun b => le a b) = [] :=
    List.filter_eq_nil_iff.mpr fun b member => by simpa using less b member
  have lasts : (after.filter fun b => !le a b) = [] :=
    List.filter_eq_nil_iff.mpr fun b member => by simpa using more b member
  rw [rest, List.filter_append, List.filter_append, firsts, lasts, List.filter_eq_self.mpr less,
    List.filter_eq_self.mpr more, List.append_nil, List.nil_append]

/-- Sorting keeps equal elements in order, so a choice among them can be made before or after. -/
theorem filter_merge_sort (trans : ∀ a b c, le a b = true → le b c = true → le a c = true)
    (total : ∀ a b, (le a b || le b a) = true) (keep : α → Bool) (l : List α) :
    (l.mergeSort le).filter keep = (l.filter keep).mergeSort le := by
  induction l with
  | nil => simp
  | cons a l ih =>
      by_cases kept : keep a = true
      · rw [List.filter_cons_of_pos kept, merge_sort_cons_eq trans total,
          merge_sort_cons_eq trans total, ← ih, List.filter_append, List.filter_cons_of_pos kept,
          List.filter_comm, List.filter_comm keep]
      · obtain ⟨before, after, sorted, rest, -⟩ := List.mergeSort_cons trans total a l
        rw [List.filter_cons_of_neg kept, ← ih, sorted, rest, List.filter_append,
          List.filter_cons_of_neg kept, List.filter_append]

def tied (le : α → α → Bool) (a b : α) : Bool :=
  le a b && le b a

theorem subset_of_filter_tied (refl : ∀ a, le a a = true) {first second : List α}
    (ties : ∀ a, first.filter (tied le a) = second.filter (tied le a)) : first ⊆ second := by
  intro a member
  have kept : a ∈ first.filter (tied le a) :=
    List.mem_filter.mpr ⟨member, by simp [tied, refl]⟩
  rw [ties a] at kept
  exact (List.mem_filter.mp kept).1

theorem eq_of_filter_tied (refl : ∀ a, le a a = true) {first second : List α}
    (sortedFirst : first.Pairwise fun a b => le a b = true)
    (sortedSecond : second.Pairwise fun a b => le a b = true)
    (ties : ∀ a, first.filter (tied le a) = second.filter (tied le a)) : first = second := by
  have ahead := subset_of_filter_tied refl ties
  have back := subset_of_filter_tied refl fun a => (ties a).symm
  induction first generalizing second with
  | nil => exact (List.subset_nil.mp back).symm
  | cons a first ih =>
      cases second with
      | nil => exact List.subset_nil.mp ahead
      | cons b second =>
          obtain ⟨lowFirst, restFirst⟩ := List.pairwise_cons.mp sortedFirst
          obtain ⟨lowSecond, restSecond⟩ := List.pairwise_cons.mp sortedSecond
          have after : le a b = true := by
            rcases List.mem_cons.mp (back List.mem_cons_self) with rfl | later
            · exact refl b
            · exact lowFirst b later
          have before : le b a = true := by
            rcases List.mem_cons.mp (ahead List.mem_cons_self) with rfl | later
            · exact refl a
            · exact lowSecond a later
          -- the heads are tied, so each is the first of the elements tied to `a`
          have heads := ties a
          rw [List.filter_cons_of_pos (by simp [tied, refl]),
            List.filter_cons_of_pos (by simp [tied, after, before])] at heads
          obtain ⟨rfl, -⟩ := List.cons.inj heads
          have rest : ∀ c, first.filter (tied le c) = second.filter (tied le c) := by
            intro c
            have same := ties c
            rw [List.filter_cons, List.filter_cons] at same
            split at same
            · exact (List.cons.inj same).2
            · exact same
          rw [ih restFirst restSecond rest (subset_of_filter_tied refl rest)
            (subset_of_filter_tied refl fun c => (rest c).symm)]

/-- A list sorted before is sorted anew as if it had not been, if what is tied at last was tied at
first. -/
theorem merge_sort_merge_sort {le last : α → α → Bool}
    (trans : ∀ a b c, le a b = true → le b c = true → le a c = true)
    (total : ∀ a b, (le a b || le b a) = true)
    (transLast : ∀ a b c, last a b = true → last b c = true → last a c = true)
    (totalLast : ∀ a b, (last a b || last b a) = true) {l : List α}
    (ties : ∀ a ∈ l, ∀ b ∈ l, last a b = true → last b a = true → le a b = true) :
    (l.mergeSort le).mergeSort last = l.mergeSort last := by
  apply eq_of_filter_tied (fun a => by simpa using totalLast a a)
    (List.pairwise_mergeSort transLast totalLast _) (List.pairwise_mergeSort transLast totalLast _)
  intro a
  rw [filter_merge_sort transLast totalLast, filter_merge_sort transLast totalLast,
    filter_merge_sort trans total]
  have level : (l.filter (tied last a)).Pairwise fun b c => le b c = true := by
    apply List.pairwise_of_forall_mem_list
    intro b memberB c memberC
    obtain ⟨insideB, tiedB⟩ := List.mem_filter.mp memberB
    obtain ⟨insideC, tiedC⟩ := List.mem_filter.mp memberC
    obtain ⟨afterB, beforeB⟩ := Bool.and_eq_true_iff.mp tiedB
    obtain ⟨afterC, beforeC⟩ := Bool.and_eq_true_iff.mp tiedC
    exact ties b insideB c insideC (transLast b a c beforeB afterC) (transLast c a b beforeC afterB)
  rw [List.mergeSort_of_pairwise level]

end Reckon.Sorting

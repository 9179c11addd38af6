import Reckon.Calendar.Grain
import Mathlib.Algebra.Order.Group.Nat
import Mathlib.Data.List.Basic

/-!
# The grains of a period

The finest and the coarsest grain of a period are grains of its parts, and bound the others.
-/

set_option autoImplicit false

namespace Reckon.Period

theorem foldl_finer_le (parts : Period) (g : Grain) :
    (parts.foldl (fun least part => least.finer part.1) g).size ≤ g.size ∧
      ∀ part ∈ parts,
        (parts.foldl (fun least part => least.finer part.1) g).size ≤ part.1.size := by
  induction parts generalizing g with
  | nil => simp
  | cons part rest ih =>
      obtain ⟨first, others⟩ := ih (g.finer part.1)
      have least : (g.finer part.1).size ≤ g.size ∧ (g.finer part.1).size ≤ part.1.size := by
        unfold Grain.finer
        split <;> omega
      refine ⟨first.trans least.1, List.forall_mem_cons.mpr ⟨first.trans least.2, others⟩⟩

theorem le_foldl_coarser (parts : Period) (g : Grain) :
    g.size ≤ (parts.foldl (fun most part => most.coarser part.1) g).size ∧
      ∀ part ∈ parts,
        part.1.size ≤ (parts.foldl (fun most part => most.coarser part.1) g).size := by
  induction parts generalizing g with
  | nil => simp
  | cons part rest ih =>
      obtain ⟨first, others⟩ := ih (g.coarser part.1)
      have most : g.size ≤ (g.coarser part.1).size ∧ part.1.size ≤ (g.coarser part.1).size := by
        unfold Grain.coarser
        split <;> omega
      refine ⟨most.1.trans first, List.forall_mem_cons.mpr ⟨most.2.trans first, others⟩⟩

theorem foldl_choice_mem (choose : Grain → Grain → Grain)
    (either : ∀ a b, choose a b = a ∨ choose a b = b) (parts : Period) (g : Grain) :
    parts.foldl (fun best part => choose best part.1) g = g ∨
      ∃ part ∈ parts, parts.foldl (fun best part => choose best part.1) g = part.1 := by
  induction parts generalizing g with
  | nil => simp
  | cons part rest ih =>
      rw [List.foldl_cons]
      rcases ih (choose g part.1) with first | ⟨other, listed, same⟩
      · rw [first]
        rcases either g part.1 with kept | taken
        · exact .inl kept
        · exact .inr ⟨part, List.mem_cons_self, taken⟩
      · exact .inr ⟨other, List.mem_cons_of_mem _ listed, same⟩

variable {period : Period} {finest coarsest : Grain}

theorem finest_le (known : period.finest? = some finest) :
    ∀ part ∈ period, finest.size ≤ part.1.size := by
  cases period with
  | nil => simp
  | cons part rest =>
      cases known
      exact List.forall_mem_cons.mpr (foldl_finer_le rest part.1)

theorem le_coarsest (known : period.coarsest? = some coarsest) :
    ∀ part ∈ period, part.1.size ≤ coarsest.size := by
  cases period with
  | nil => simp
  | cons part rest =>
      cases known
      exact List.forall_mem_cons.mpr (le_foldl_coarser rest part.1)

/-- The finest grain of a period is that of a part. -/
theorem exists_finest (some : period ≠ []) :
    ∃ part ∈ period, period.finest? = Option.some part.1 := by
  obtain ⟨part, rest, rfl⟩ := List.exists_cons_of_ne_nil some
  have either : ∀ a b : Grain, a.finer b = a ∨ a.finer b = b := by
    intro a b
    rw [Grain.finer]
    split_ifs <;> simp
  rcases foldl_choice_mem Grain.finer either rest part.1 with first | ⟨other, listed, same⟩
  · exact ⟨part, List.mem_cons_self, congrArg Option.some first⟩
  · exact ⟨other, List.mem_cons_of_mem _ listed, congrArg Option.some same⟩

theorem exists_coarsest (some : period ≠ []) :
    ∃ part ∈ period, period.coarsest? = Option.some part.1 := by
  obtain ⟨part, rest, rfl⟩ := List.exists_cons_of_ne_nil some
  have either : ∀ a b : Grain, a.coarser b = a ∨ a.coarser b = b := by
    intro a b
    rw [Grain.coarser]
    split_ifs <;> simp
  rcases foldl_choice_mem Grain.coarser either rest part.1 with first | ⟨other, listed, same⟩
  · exact ⟨part, List.mem_cons_self, congrArg Option.some first⟩
  · exact ⟨other, List.mem_cons_of_mem _ listed, congrArg Option.some same⟩

theorem finest_perm {other : Period} (same : other.Perm period) (some : period ≠ []) :
    other.finest? = period.finest? := by
  have others : other ≠ [] := by
    intro empty
    rw [empty] at same
    exact some same.nil_eq.symm
  obtain ⟨a, here, least⟩ := exists_finest some
  obtain ⟨b, there, lowest⟩ := exists_finest others
  have above := finest_le least b (same.mem_iff.mp there)
  have below := finest_le lowest a (same.mem_iff.mpr here)
  rw [least, lowest, Grain.size_injective (le_antisymm below above)]

end Reckon.Period

import Mathlib.Data.List.Dedup
import Mathlib.Data.Nat.ModEq
import Reckon.Proofs.Text.Blanks
import Reckon.Text.LetterCase

/-!
# Upper case

A text in upper case stays as it is when it is raised again: no letter that the tables lead to is
raised further. No character is dropped, so a text that loses something when it is trimmed can be
told from what is left of it in upper case as well.
-/

set_option autoImplicit false

namespace Reckon.Text

/-! Runs of letters. -/

section Runs

def covers (run : Nat × Nat × Nat × Int) (n : Nat) : Bool :=
  run.1 ≤ n && n ≤ run.2.1 && (n - run.1) % run.2.2.1 == 0

/-- All letters that are raised: the runs, and the letters with expansions as runs of one. -/
def raised : List (Nat × Nat × Nat × Int) :=
  upperRuns.toList ++ upperExpansions.toList.map fun entry => (entry.1, entry.1, 1, 0)

/-- Where raising leads: the runs, and the letters of expansions as runs of one. -/
def leading : List (Nat × Nat × Nat × Int) :=
  upperRuns.toList ++ ((upperExpansions.toList.flatMap (·.2)).dedup.map fun n => (n, n, 1, 0))

/-- The letters that a run leads to lie before another run, behind it, or between its letters. -/
def leadsPast (run other : Nat × Nat × Nat × Int) : Bool :=
  (run.2.1 + run.2.2.2).toNat.blt other.1 || other.2.1.blt (run.1 + run.2.2.2).toNat ||
    (run.1.beq run.2.1 || (run.2.2.1 % other.2.2.1).beq 0) &&
      !((run.1 + run.2.2.2).toNat % other.2.2.1).beq (other.1 % other.2.2.1)

/-- The letters that a run leads to are characters, and not in ASCII unless raised there. -/
def LeadsToCharacters (run : Nat × Nat × Nat × Int) : Prop :=
  (0x80 ≤ run.1 + run.2.2.2 ∨ run.1 = run.2.1 ∧ 0 ≤ run.1 + run.2.2.2 ∧
      upperChar (Char.ofNat (run.1 + run.2.2.2).toNat) =
        [Char.ofNat (run.1 + run.2.2.2).toNat]) ∧
    (run.2.1 + run.2.2.2 < 0xD800 ∨
      0xDFFF < run.1 + run.2.2.2 ∧ run.2.1 + run.2.2.2 < 0x110000)
deriving Decidable

theorem all_lead_past : leading.all (fun run => raised.all (leadsPast run)) = true := by
  decide +kernel

theorem all_lead_to_characters : ∀ run ∈ leading, LeadsToCharacters run := by
  decide +kernel

variable {run other : Nat × Nat × Nat × Int} {n : Nat}

theorem covers_iff : covers run n = true ↔
    (run.1 ≤ n ∧ n ≤ run.2.1) ∧ (n - run.1) % run.2.2.1 = 0 := by
  simp only [covers, Bool.and_eq_true, decide_eq_true_eq, beq_iff_eq]

theorem not_covered_of_leads_past (past : leadsPast run other = true)
    (apart : 0 ≤ run.1 + run.2.2.2) (covered : covers run n = true) :
    covers other (n + run.2.2.2).toNat = false := by
  obtain ⟨within, step⟩ := covers_iff.mp covered
  rw [← Bool.not_eq_true, covers_iff]
  rintro ⟨inside, again⟩
  have same : (n + run.2.2.2).toNat % other.2.2.1 = other.1 % other.2.2.1 :=
    ((Nat.modEq_iff_dvd' inside.1).mpr (Nat.dvd_of_mod_eq_zero again)).symm
  simp only [leadsPast, Bool.or_eq_true, Bool.and_eq_true, Nat.blt_eq, Nat.beq_eq,
    Bool.not_eq_true', ← Bool.not_eq_true] at past
  rcases past with (before | behind) | ⟨single | steps, between⟩
  · omega
  · omega
  · rw [show n = run.1 by omega] at same
    exact between same
  · have split : (n + run.2.2.2).toNat = (run.1 + run.2.2.2).toNat + (n - run.1) := by
      omega
    have whole : other.2.2.1 ∣ n - run.1 :=
      Nat.dvd_trans (Nat.dvd_of_mod_eq_zero steps) (Nat.dvd_of_mod_eq_zero step)
    rw [split, Nat.add_mod, Nat.mod_eq_zero_of_dvd whole, Nat.add_zero, Nat.mod_mod] at same
    exact between same

end Runs

/-! Characters. -/

section Characters

variable {c : Char} {n : Nat}

theorem mem_of_find {α : Type} {xs : Array α} {test : α → Bool} {x : α}
    (found : xs.find? test = some x) : x ∈ xs.toList ∧ test x = true :=
  ⟨Array.mem_toList_iff.mpr (Array.mem_of_find?_eq_some found), Array.find?_some found⟩

theorem upper_char_cases (outside : 0x80 ≤ c.toNat) :
    (∃ entry ∈ upperExpansions.toList, entry.1 = c.toNat ∧
      upperChar c = entry.2.map Char.ofNat) ∨
    (∃ run ∈ upperRuns.toList, covers run c.toNat = true ∧
      upperChar c = [Char.ofNat (c.toNat + run.2.2.2).toNat]) ∨
    upperChar c = [c] := by
  unfold upperChar
  simp only [if_neg (Nat.not_lt.mpr outside)]
  split
  · rename_i code letters found
    obtain ⟨member, own⟩ := mem_of_find found
    exact .inl ⟨(code, letters), member, beq_iff_eq.mp own, rfl⟩
  · split
    · rename_i first last step distance found
      obtain ⟨member, covered⟩ := mem_of_find found
      exact .inr (.inl ⟨(first, last, step, distance), member, covered, rfl⟩)
    · exact .inr (.inr rfl)

theorem upper_char_of_not_raised (outside : 0x80 ≤ c.toNat)
    (plain : ∀ run ∈ raised, covers run c.toNat = false) : upperChar c = [c] := by
  rcases upper_char_cases outside with ⟨entry, member, own, -⟩ | ⟨run, member, covered, -⟩ | same
  · have apart := plain _ (List.mem_append_right _ (List.mem_map_of_mem member))
    rw [← own] at apart
    simp [covers] at apart
  · rw [plain run (List.mem_append_left _ member)] at covered
    cases covered
  · exact same

theorem upper_char_leading {run : Nat × Nat × Nat × Int} (member : run ∈ leading)
    (covered : covers run n = true) :
    upperChar (Char.ofNat (n + run.2.2.2).toNat) = [Char.ofNat (n + run.2.2.2).toNat] := by
  obtain ⟨within, -⟩ := covers_iff.mp covered
  obtain ⟨outside | ⟨single, -, raisedAlready⟩, valid⟩ := all_lead_to_characters run member
  · have code : (Char.ofNat (n + run.2.2.2).toNat).toNat = (n + run.2.2.2).toNat := by
      have valid : (n + run.2.2.2).toNat.isValidChar := by
        unfold Nat.isValidChar
        omega
      rw [Char.ofNat, dif_pos valid]
      rfl
    refine upper_char_of_not_raised (by omega) fun other others => ?_
    rw [code]
    have past := List.all_eq_true.mp (List.all_eq_true.mp all_lead_past run member) other others
    exact not_covered_of_leads_past past (by omega) covered
  · rwa [show n = run.1 by omega]

theorem upper_char_stays (c : Char) : (upperChar c).flatMap upperChar = upperChar c := by
  by_cases ascii : c.toNat < 0x80
  · have all : ∀ code < 0x80, upperChar (Char.ofNat code).toUpper =
        [(Char.ofNat code).toUpper] := by
      decide +kernel
    have own : upperChar c = [c.toUpper] := if_pos ascii
    have raisedAlready := all c.toNat ascii
    rw [Char.ofNat_toNat] at raisedAlready
    rw [own, List.flatMap_singleton, raisedAlready]
  · rcases upper_char_cases (Nat.not_lt.mp ascii) with
      ⟨entry, member, -, own⟩ | ⟨run, member, covered, own⟩ | own
    · have letters : ∀ n ∈ entry.2, upperChar (Char.ofNat n) = [Char.ofNat n] := by
        intro n letter
        have listed : (n, n, 1, (0 : Int)) ∈ leading :=
          List.mem_append_right _ (List.mem_map_of_mem
            (List.mem_dedup.mpr (List.mem_flatMap.mpr ⟨entry, member, letter⟩)))
        simpa using upper_char_leading (n := n) listed (by simp [covers])
      rw [own, List.flatMap_map, List.flatMap_congr letters, List.map_eq_flatMap]
    · rw [own, List.flatMap_singleton, upper_char_leading (List.mem_append_left _ member) covered]
    · rw [own, List.flatMap_singleton, own]

theorem upper_char_ne_nil (c : Char) : upperChar c ≠ [] := by
  have letters : ∀ entry ∈ upperExpansions.toList, entry.2 ≠ [] := by
    decide +kernel
  by_cases ascii : c.toNat < 0x80
  · rw [show upperChar c = [c.toUpper] from if_pos ascii]
    exact List.cons_ne_nil _ _
  · rcases upper_char_cases (Nat.not_lt.mp ascii) with
      ⟨entry, member, -, own⟩ | ⟨run, -, -, own⟩ | own
    · rw [own, ne_eq, List.map_eq_nil_iff]
      exact letters entry member
    · rw [own]
      exact List.cons_ne_nil _ _
    · rw [own]
      exact List.cons_ne_nil _ _

end Characters

/-! Texts. -/

theorem upper_upper (s : String) : upper (upper s) = upper s := by
  simp only [upper, String.toList_ofList, List.flatMap_assoc, upper_char_stays]

theorem eq_nil_of_upper {cs : List Char} (empty : (cs.flatMap upperChar).length = 0) :
    cs = [] := by
  rw [List.length_eq_zero_iff, List.flatMap_eq_nil_iff] at empty
  exact List.eq_nil_iff_forall_not_mem.mpr fun c member => upper_char_ne_nil c (empty c member)

/-- In upper case a text agrees with what is left of it by trimming only if nothing is trimmed. -/
theorem upper_trim_string_iff (s : String) :
    upper (trimString s) = upper s ↔ trimString s = s := by
  refine ⟨fun same => ?_, congrArg upper⟩
  have split := trim_split s.toList
  have length : ((trim s.toList).flatMap upperChar).length =
      (s.toList.flatMap upperChar).length := by
    simpa [upper, trimString] using congrArg String.length same
  have parts := congrArg (fun cs => (cs.flatMap upperChar).length) split
  simp only [List.flatMap_append, List.length_append] at parts
  rw [eq_nil_of_upper (show ((s.toList.takeWhile isTrimmed).flatMap upperChar).length = 0 by omega),
    eq_nil_of_upper (show ((trailing s.toList).flatMap upperChar).length = 0 by omega),
    List.nil_append, List.append_nil] at split
  rw [trimString, split, String.ofList_toList]

end Reckon.Text

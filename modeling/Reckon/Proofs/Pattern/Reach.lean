import Reckon.Pattern.Basic
import Mathlib.Order.Defs.LinearOrder

/-!
# Where matches lie

A pattern moves forward only and stays in the text, so every match is a range of the text. The
successive matches of a text are in the order of their starts, and two that start at one place are
an empty one and one that is not.
-/

set_option autoImplicit false

namespace Reckon.Pattern

/-- One cursor is reached from another: not before it, and not past the end of the text. -/
def Reaches (size : Nat) (cursor next : Cursor) : Prop :=
  cursor.pos ≤ next.pos ∧ next.pos ≤ max cursor.pos size

theorem reaches_self (size : Nat) (cursor : Cursor) : Reaches size cursor cursor := by
  constructor
  · exact Nat.le_refl _
  · omega

theorem reaches_trans {size : Nat} {first second third : Cursor}
    (left : Reaches size first second) (right : Reaches size second third) :
    Reaches size first third := by
  unfold Reaches at *
  omega

section Repetition

variable (size : Nat) (step : Cursor → List Cursor)
  (forward : ∀ cursor, ∀ next ∈ step cursor, Reaches size cursor next)

include forward

theorem times_reaches (n : Nat) (cursor : Cursor) :
    ∀ next ∈ times step n cursor, Reaches size cursor next := by
  induction n generalizing cursor with
  | zero =>
      intro next member
      rw [times, List.mem_singleton] at member
      subst next
      exact reaches_self size cursor
  | succ n ih =>
      intro next member
      obtain ⟨middle, stepped, later⟩ := List.mem_flatMap.mp member
      exact reaches_trans (forward cursor middle stepped) (ih middle next later)

theorem up_to_reaches (fuel : Nat) (most : Option Nat) (cursor : Cursor) :
    ∀ next ∈ upTo step fuel most cursor, Reaches size cursor next := by
  induction fuel generalizing most cursor with
  | zero =>
      intro next member
      rw [upTo, List.mem_singleton] at member
      subst next
      exact reaches_self size cursor
  | succ fuel ih =>
      intro next member
      rw [upTo] at member
      rcases List.mem_append.mp member with further | here
      · split at further
        · simp at further
        · obtain ⟨middle, stepped, later⟩ := List.mem_flatMap.mp further
          have moved := forward cursor middle stepped
          split at later
          · rw [List.mem_singleton] at later
            subst next
            exact moved
          · exact reaches_trans moved (ih _ middle next later)
      · rw [List.mem_singleton] at here
        subst next
        exact reaches_self size cursor

end Repetition

theorem run_reaches (text : Array Char) (p : Pattern) (cursor : Cursor) :
    ∀ next ∈ p.run text cursor, Reaches text.size cursor next := by
  induction p generalizing cursor with
  | empty =>
      intro next member
      simp only [run, List.mem_singleton] at member
      subst next
      exact reaches_self _ cursor
  | one cls =>
      intro next member
      simp only [run] at member
      split at member
      · rename_i c here
        have inside : cursor.pos < text.size := (Array.getElem?_eq_some_iff.mp here).1
        split at member
        · rw [List.mem_singleton] at member
          subst next
          simp only [Reaches]
          omega
        · simp at member
      · simp at member
  | seq first second ihFirst ihSecond =>
      intro next member
      simp only [run] at member
      obtain ⟨middle, left, right⟩ := List.mem_flatMap.mp member
      exact reaches_trans (ihFirst cursor middle left) (ihSecond middle next right)
  | alt first second ihFirst ihSecond =>
      intro next member
      simp only [run] at member
      rcases List.mem_append.mp member with left | right
      · exact ihFirst cursor next left
      · exact ihSecond cursor next right
  | repeated body least most ih =>
      intro next member
      simp only [run] at member
      obtain ⟨middle, required, more⟩ := List.mem_flatMap.mp member
      have before := times_reaches text.size _ ih least cursor middle required
      exact reaches_trans before (up_to_reaches text.size _ ih _ _ middle next more)
  | group index body ih =>
      intro next member
      simp only [run] at member
      obtain ⟨inner, reached, same⟩ := List.mem_map.mp member
      subst next
      exact ih cursor inner reached
  | edge | notAhead _ _ | notBehind _ =>
      intro next member
      simp only [run] at member
      split at member <;> simp_all [reaches_self]

/-- One of the matches at a place, the preferred one or another. -/
def MatchesAt (text : Array Char) (p : Pattern) (pos : Nat) (m : Match) : Prop :=
  ∃ cursor ∈ p.run text ⟨pos, []⟩, Match.ofCursor text pos cursor = m

section Matches

variable {text : Array Char} {p : Pattern} {pos : Nat} {m : Match}

theorem matches_at_of_match_at (found : p.matchAt text pos = Option.some m) :
    p.MatchesAt text pos m := by
  obtain ⟨cursor, first, same⟩ := Option.map_eq_some_iff.mp found
  exact ⟨cursor, List.mem_of_mem_head? first, same⟩

theorem exists_match_at {next : Cursor} (reached : next ∈ p.run text ⟨pos, []⟩) :
    ∃ m, p.matchAt text pos = Option.some m := by
  obtain ⟨first, rest, ran⟩ := List.exists_cons_of_ne_nil (List.ne_nil_of_mem reached)
  exact ⟨Match.ofCursor text pos first, by rw [matchAt, ran]; rfl⟩

theorem matches_at_of_filled_match_at (found : p.filledMatchAt text pos = Option.some m) :
    p.MatchesAt text pos m ∧ pos < m.stop := by
  obtain ⟨cursor, first, same⟩ := Option.map_eq_some_iff.mp found
  have filled := List.find?_some first
  subst same
  exact ⟨⟨cursor, List.mem_of_find?_eq_some first, rfl⟩, of_decide_eq_true filled⟩

theorem MatchesAt.range (way : p.MatchesAt text pos m) :
    m.start = pos ∧ m.start ≤ m.stop ∧ m.stop ≤ max pos text.size ∧
      m.content = charsBetween text m.start m.stop := by
  obtain ⟨cursor, member, same⟩ := way
  have reached := run_reaches text p ⟨pos, []⟩ cursor member
  subst same
  exact ⟨rfl, reached.1, reached.2, rfl⟩

end Matches

theorem match_at_range (text : Array Char) (p : Pattern) (pos : Nat) (m : Match)
    (found : p.matchAt text pos = Option.some m) :
    m.start = pos ∧ m.start ≤ m.stop ∧ m.stop ≤ max pos text.size ∧
      m.content = charsBetween text m.start m.stop :=
  (matches_at_of_match_at found).range

/-! Searches. -/

/-- A search finds the preferred match at a place, and where that is empty also the preferred one of
those that are not. -/
def Finds (text : Array Char) (p : Pattern) (m : Match) : Prop :=
  p.matchAt text m.start = Option.some m ∨
    p.filledMatchAt text m.start = Option.some m ∧
      ∃ n, p.matchAt text m.start = Option.some n ∧ n.stop ≤ m.start

/-- A match starts before another, or at the same place, where it is empty and the other is not. -/
def Match.Precedes (a b : Match) : Prop :=
  a.start < b.start ∨ a.start = b.start ∧ a.stop ≤ a.start ∧ b.start < b.stop

/-- Matches that a search finds from a place on, in order. -/
structure Searched (text : Array Char) (p : Pattern) (pos : Nat) (ms : List Match) : Prop where
  finds : ∀ m ∈ ms, pos ≤ m.start ∧ m.stop ≤ text.size ∧ p.Finds text m
  ordered : ms.Pairwise Match.Precedes

section Searches

variable {text : Array Char} {p : Pattern} {pos next : Nat} {m n : Match} {ms : List Match}

theorem Searched.later (searched : Searched text p next ms) (ahead : pos ≤ next) :
    Searched text p pos ms := by
  refine ⟨fun m member => ?_, searched.ordered⟩
  obtain ⟨after, within, finds⟩ := searched.finds m member
  exact ⟨Nat.le_trans ahead after, within, finds⟩

theorem Searched.cons (searched : Searched text p next ms) (finds : p.Finds text m)
    (within : m.stop ≤ text.size) (ahead : m.start < next) : Searched text p m.start (m :: ms) := by
  have later := searched.later (Nat.le_of_lt ahead)
  refine ⟨List.forall_mem_cons.mpr ⟨⟨Nat.le_refl _, within, finds⟩, later.finds⟩, ?_⟩
  refine List.pairwise_cons.mpr ⟨fun other member => .inl ?_, searched.ordered⟩
  exact Nat.lt_of_lt_of_le ahead (searched.finds other member).1

theorem Searched.cons_empty (searched : Searched text p m.start (m :: ms)) (finds : p.Finds text n)
    (start : n.start = m.start) (empty : n.stop ≤ n.start) (filled : m.start < m.stop) :
    Searched text p n.start (n :: m :: ms) := by
  obtain ⟨finding, ordered⟩ := searched
  have within := (finding m List.mem_cons_self).2.1
  rw [← start] at finding filled
  refine ⟨List.forall_mem_cons.mpr ⟨⟨Nat.le_refl _, by omega, finds⟩, finding⟩, ?_⟩
  refine List.pairwise_cons.mpr ⟨List.forall_mem_cons.mpr ⟨?_, ?_⟩, ordered⟩
  · exact .inr ⟨start, empty, by omega⟩
  · intro other member
    rcases (List.pairwise_cons.mp ordered).1 other member with before | ⟨-, still, -⟩
    · exact .inl (by omega)
    · omega

theorem find_from_searched (text : Array Char) (p : Pattern) (fuel pos : Nat) :
    Searched text p pos (findFrom text p fuel pos) := by
  induction fuel generalizing pos with
  | zero => exact ⟨by simp [findFrom], by simp [findFrom]⟩
  | succ fuel ih =>
      rw [findFrom]
      split
      · exact ⟨by simp, by simp⟩
      · rename_i inside
        split
        · exact (ih (pos + 1)).later (Nat.le_succ pos)
        · rename_i m found
          obtain ⟨start, forward, stop, -⟩ := match_at_range text p pos m found
          subst start
          split
          · rename_i filled
            exact (ih m.stop).cons (.inl found) (by omega) filled
          · rename_i empty
            split
            · exact (ih (m.start + 1)).cons (.inl found) (by omega) (Nat.lt_succ_self _)
            · rename_i n again
              obtain ⟨way, filled⟩ := matches_at_of_filled_match_at again
              obtain ⟨start, -, within, -⟩ := way.range
              rw [← start] at again filled
              have later := (ih n.stop).cons
                (.inr ⟨again, m, start ▸ found, by omega⟩) (by omega) filled
              exact later.cons_empty (.inl found) start.symm (by omega) filled

theorem finds_of_match_at (found : p.matchAt text pos = Option.some m) : p.Finds text m := by
  have start := (match_at_range text p pos m found).1
  exact .inl (start ▸ found)

theorem find_all_finds (found : m ∈ p.findAll text) : p.Finds text m :=
  ((find_from_searched text p (text.size + 1) 0).finds m found).2.2

theorem find_all_ordered (text : Array Char) (p : Pattern) :
    (p.findAll text).Pairwise Match.Precedes :=
  (find_from_searched text p (text.size + 1) 0).ordered

theorem Finds.way (finds : p.Finds text m) : p.MatchesAt text m.start m := by
  rcases finds with first | ⟨filled, -⟩
  · exact matches_at_of_match_at first
  · exact (matches_at_of_filled_match_at filled).1

/-- At one place a search finds one empty match and one that is not, at most. -/
theorem Finds.unique (first : p.Finds text m) (second : p.Finds text n) (start : m.start = n.start)
    (alike : m.start < m.stop ↔ n.start < n.stop) : m = n := by
  rcases first with preferred | ⟨filled, empty, here, still⟩ <;>
    rcases second with preferredToo | ⟨filledToo, emptyToo, hereToo, stillToo⟩
  · rw [start, preferredToo] at preferred
    exact (Option.some.inj preferred).symm
  · have more := (matches_at_of_filled_match_at filledToo).2
    rw [start, hereToo] at preferred
    cases preferred
    omega
  · have more := (matches_at_of_filled_match_at filled).2
    rw [start, preferredToo] at here
    cases here
    omega
  · rw [start, filledToo] at filled
    exact (Option.some.inj filled).symm

end Searches

theorem find_all_range (text : Array Char) (p : Pattern) (m : Match) (found : m ∈ p.findAll text) :
    m.start ≤ m.stop ∧ m.stop ≤ text.size ∧ p.MatchesAt text m.start m := by
  obtain ⟨-, stop, finds⟩ := (find_from_searched text p (text.size + 1) 0).finds m found
  exact ⟨finds.way.range.2.1, stop, finds.way⟩

-- Behind an empty match the search tries the same place again, for one that is not.
example : ((alt empty (one (.exactly 'x'))).findAll #['x']).map (fun m => (m.start, m.stop)) =
    [(0, 0), (0, 1), (1, 1)] := by
  decide

end Reckon.Pattern

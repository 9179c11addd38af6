import Reckon.Pattern.Build
import Reckon.Proofs.Pattern.Spelling

/-!
# The ways of composite patterns

How the patterns built with `Build` run, said by the ways of their parts: sequences, choices, and
parts that may be left out. Of a choice the first part that matches decides the match.
-/

set_option autoImplicit false

namespace Reckon.Pattern

theorem run_sequence_cons (text : Array Char) (p : Pattern) (rest : List Pattern)
    (cursor : Cursor) : (sequence (p :: rest)).run text cursor =
      (p.run text cursor).flatMap fun next => (sequence rest).run text next := by
  cases rest with
  | nil => simp [sequence, run]
  | cons q rest => rfl

theorem run_any_of_cons (text : Array Char) (p : Pattern) (rest : List Pattern)
    (cursor : Cursor) :
    (anyOf (p :: rest)).run text cursor = p.run text cursor ++ (anyOf rest).run text cursor := by
  cases rest with
  | nil => simp [anyOf, run]
  | cons q rest => rfl

theorem mem_run_one (text : Array Char) (cls : CharClass) (cursor next : Cursor) :
    next ∈ (one cls).run text cursor ↔
      (∃ c, text[cursor.pos]? = Option.some c ∧ cls.accepts c = true) ∧
        next = { cursor with pos := cursor.pos + 1 } := by
  rw [run]
  split
  · rename_i c here
    simp only [Option.some.injEq, exists_eq_left', here]
    split
    · rename_i accepted
      simp [accepted]
    · rename_i refused
      simp [refused]
  · rename_i none
    simp [none]

theorem mem_run_edge (text : Array Char) (cursor next : Cursor) :
    next ∈ edge.run text cursor ↔ isEdge text cursor.pos = true ∧ next = cursor := by
  rw [run]
  split
  · rename_i here
    simp [here]
  · rename_i none
    simp [none]

theorem mem_run_whole (text : Array Char) (p : Pattern) (cursor next : Cursor) :
    next ∈ (whole p).run text cursor ↔ isEdge text cursor.pos = true ∧
      next ∈ p.run text cursor ∧ isEdge text next.pos = true := by
  simp only [whole, run, List.mem_flatMap]
  constructor
  · rintro ⟨first, opened, inner, matched, closed⟩
    obtain ⟨opens, same⟩ := (mem_run_edge _ _ _).mp opened
    obtain ⟨closes, alike⟩ := (mem_run_edge _ _ _).mp closed
    subst same alike
    exact ⟨opens, matched, closes⟩
  · rintro ⟨opens, matched, closes⟩
    exact ⟨cursor, (mem_run_edge _ _ _).mpr ⟨opens, rfl⟩, next, matched,
      (mem_run_edge _ _ _).mpr ⟨closes, rfl⟩⟩

theorem up_to_done (text : Array Char) (p : Pattern) (fuel : Nat) (cursor : Cursor) :
    upTo (fun next => p.run text next) fuel (Option.some 0) cursor = [cursor] := by
  cases fuel <;> simp [upTo]

theorem run_optional (text : Array Char) (p : Pattern) (cursor : Cursor)
    (inside : cursor.pos ≤ text.size) :
    (optional p).run text cursor = p.run text cursor ++ [cursor] := by
  obtain ⟨fuel, enough⟩ : ∃ fuel, text.size + 1 - cursor.pos = fuel + 1 :=
    ⟨text.size - cursor.pos, by omega⟩
  simp only [optional, run, times, List.flatMap_singleton, Option.map_some, Nat.sub_zero, enough,
    upTo, Option.some.injEq, Nat.one_ne_zero, if_false, Nat.sub_self, up_to_done, ite_self]
  simp

theorem mem_run_optional {text : Array Char} {p : Pattern} {cursor next : Cursor}
    (reached : next ∈ (optional p).run text cursor) : next = cursor ∨ next ∈ p.run text cursor := by
  simp only [optional, run, times, List.flatMap_singleton, Option.map_some, Nat.sub_zero] at reached
  cases fuel : text.size + 1 - cursor.pos with
  | zero =>
      rw [fuel] at reached
      exact .inl (by simpa [upTo] using reached)
  | succ fuel' =>
      rw [fuel] at reached
      simp only [upTo, Option.some.injEq, Nat.one_ne_zero, if_false, Option.map_some, Nat.sub_self,
        up_to_done, ite_self, List.flatMap_singleton', List.mem_append,
        List.mem_singleton] at reached
      exact reached.symm

theorem match_at_alt (text : Array Char) (p q : Pattern) (pos : Nat) :
    (alt p q).matchAt text pos = (p.matchAt text pos).or (q.matchAt text pos) := by
  simp only [matchAt, run, List.head?_append]
  cases (p.run text ⟨pos, []⟩).head? <;> rfl

theorem match_at_optional (text : Array Char) (p : Pattern) (pos : Nat) (inside : pos ≤ text.size) :
    (optional p).matchAt text pos = (p.matchAt text pos).or (Option.some ⟨pos, pos, [], []⟩) := by
  simp only [matchAt, run_optional text p ⟨pos, []⟩ inside, List.head?_append]
  cases (p.run text ⟨pos, []⟩).head? <;> simp [Match.ofCursor, chars_between_self]

theorem match_at_one (text : Array Char) (cls : CharClass) (pos : Nat) (m : Match) :
    (one cls).matchAt text pos = Option.some m ↔
      ∃ c, text[pos]? = Option.some c ∧ cls.accepts c = true ∧ m = ⟨pos, pos + 1, [c], []⟩ := by
  rw [matchAt, run]
  cases here : text[pos]? with
  | none => simp
  | some c =>
      by_cases accepted : cls.accepts c = true
      · simp only [accepted, if_true, List.head?_cons, Option.map_some, Match.ofCursor,
          chars_between_one here, List.map_nil, Option.some.injEq, exists_eq_left', true_and]
        exact eq_comm
      · simp [accepted]

end Reckon.Pattern

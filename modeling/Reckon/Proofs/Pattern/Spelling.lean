import Reckon.Proofs.Pattern.Reach

/-!
# What matches spell

A pattern spells a set of character sequences, which leaves open where they may stand: edges and
look-arounds spell nothing. What a match covers is spelled by its pattern, and the content of a
group by the body of a group with that number.
-/

set_option autoImplicit false

namespace Reckon.Pattern

inductive Spells : Pattern → List Char → Prop
  | empty : Spells .empty []
  | one {cls : CharClass} {c : Char} (accepted : cls.accepts c = true) : Spells (.one cls) [c]
  | seq {first second : Pattern} {left right : List Char} (head : Spells first left)
      (tail : Spells second right) : Spells (.seq first second) (left ++ right)
  | altFirst {first second : Pattern} {cs : List Char} (here : Spells first cs) :
      Spells (.alt first second) cs
  | altSecond {first second : Pattern} {cs : List Char} (here : Spells second cs) :
      Spells (.alt first second) cs
  | repeated {body : Pattern} {least : Nat} {most : Option Nat} (parts : List (List Char))
      (each : ∀ part ∈ parts, Spells body part) (enough : least ≤ parts.length)
      (bounded : ∀ bound, most = Option.some bound → parts.length ≤ max least bound) :
      Spells (.repeated body least most) parts.flatten
  | group {index : Nat} {body : Pattern} {cs : List Char} (here : Spells body cs) :
      Spells (.group index body) cs
  | edge : Spells .edge []
  | notAhead {body : Pattern} : Spells (.notAhead body) []
  | notBehind {classes : List CharClass} : Spells (.notBehind classes) []

def groupBodies (index : Nat) : Pattern → List Pattern
  | seq first second | alt first second => groupBodies index first ++ groupBodies index second
  | repeated body _ _ => groupBodies index body
  | group own body =>
    if own = index then body :: groupBodies index body else groupBodies index body
  | empty | one _ | edge | notAhead _ | notBehind _ => []

theorem chars_between_append (text : Array Char) {first second third : Nat} (left : first ≤ second)
    (right : second ≤ third) :
    charsBetween text first third =
      charsBetween text first second ++ charsBetween text second third := by
  unfold charsBetween
  rw [← Array.toList_append, Array.extract_append_extract, Nat.min_eq_left left,
    Nat.max_eq_right right]

theorem chars_between_self (text : Array Char) (pos : Nat) : charsBetween text pos pos = [] := by
  simp [charsBetween]

theorem chars_between_one {text : Array Char} {pos : Nat} {c : Char}
    (here : text[pos]? = Option.some c) : charsBetween text pos (pos + 1) = [c] := by
  obtain ⟨inside, value⟩ := Array.getElem?_eq_some_iff.mp here
  have opened := List.drop_eq_getElem_cons (by simpa using inside : pos < text.toList.length)
  simp [charsBetween, opened, value]

/-- The groups of one cursor are those of another and new ones whose content is spelled by bodies
from a list. -/
def Adds (text : Array Char) (bodies : Nat → List Pattern) (cursor next : Cursor) : Prop :=
  ∃ new, next.groups = new ++ cursor.groups ∧ ∀ entry ∈ new, ∃ body ∈ bodies entry.1,
    Spells body (charsBetween text entry.2.1 entry.2.2)

theorem adds_self (text : Array Char) (bodies : Nat → List Pattern) (cursor : Cursor) :
    Adds text bodies cursor cursor :=
  ⟨[], rfl, by simp⟩

theorem adds_trans {text : Array Char} {bodies : Nat → List Pattern} {first second third : Cursor}
    (left : Adds text bodies first second) (right : Adds text bodies second third) :
    Adds text bodies first third := by
  obtain ⟨early, earlyGroups, earlySpelled⟩ := left
  obtain ⟨late, lateGroups, lateSpelled⟩ := right
  refine ⟨late ++ early, by rw [lateGroups, earlyGroups, List.append_assoc], ?_⟩
  intro entry member
  rcases List.mem_append.mp member with new | old
  · exact lateSpelled entry new
  · exact earlySpelled entry old

theorem adds_mono {text : Array Char} {few more : Nat → List Pattern} {cursor next : Cursor}
    (adds : Adds text few cursor next)
    (inside : ∀ index, ∀ body ∈ few index, body ∈ more index) : Adds text more cursor next := by
  obtain ⟨new, groups, spelled⟩ := adds
  refine ⟨new, groups, ?_⟩
  intro entry member
  obtain ⟨body, belongs, spells⟩ := spelled entry member
  exact ⟨body, inside entry.1 body belongs, spells⟩

/-- A step that moves forward over what a body spells. -/
structure Advances (text : Array Char) (body : Pattern) (bodies : Nat → List Pattern)
    (cursor next : Cursor) : Prop where
  forward : cursor.pos ≤ next.pos
  spells : Spells body (charsBetween text cursor.pos next.pos)
  adds : Adds text bodies cursor next

section Steps

variable {text : Array Char} {first second body : Pattern} {cursor middle next : Cursor}

theorem Advances.still {bodies : Nat → List Pattern} (spells : Spells body []) :
    Advances text body bodies cursor cursor := by
  refine ⟨Nat.le_refl _, ?_, adds_self _ _ _⟩
  rw [chars_between_self]
  exact spells

theorem Advances.one {cls : CharClass} {c : Char} {bodies : Nat → List Pattern}
    (here : text[cursor.pos]? = Option.some c) (accepted : cls.accepts c = true) :
    Advances text (.one cls) bodies cursor { cursor with pos := cursor.pos + 1 } := by
  refine ⟨Nat.le_succ _, ?_, [], rfl, by simp⟩
  simp only [chars_between_one here]
  exact .one accepted

theorem Advances.seq
    (head : Advances text first (fun index => groupBodies index first) cursor middle)
    (tail : Advances text second (fun index => groupBodies index second) middle next) :
    Advances text (.seq first second) (fun index => groupBodies index (.seq first second))
      cursor next := by
  refine ⟨Nat.le_trans head.forward tail.forward, ?_, adds_trans (adds_mono head.adds ?_)
    (adds_mono tail.adds ?_)⟩
  · rw [chars_between_append text head.forward tail.forward]
    exact .seq head.spells tail.spells
  · intro index body belongs
    exact List.mem_append_left _ belongs
  · intro index body belongs
    exact List.mem_append_right _ belongs

theorem Advances.group {index : Nat}
    (inner : Advances text body (fun own => groupBodies own body) cursor next) :
    Advances text (.group index body) (fun own => groupBodies own (.group index body)) cursor
      { next with groups := (index, cursor.pos, next.pos) :: next.groups } := by
  refine ⟨inner.forward, .group inner.spells, ?_⟩
  obtain ⟨new, groups, spelled⟩ := inner.adds
  refine ⟨(index, cursor.pos, next.pos) :: new, by simp only [groups, List.cons_append], ?_⟩
  refine List.forall_mem_cons.mpr ⟨⟨body, by simp [groupBodies], inner.spells⟩, ?_⟩
  intro entry older
  obtain ⟨other, inside, spells⟩ := spelled entry older
  refine ⟨other, ?_, spells⟩
  simp only [groupBodies]
  split
  · exact List.mem_cons_of_mem _ inside
  · exact inside

end Steps

section Repetition

variable (text : Array Char) (body : Pattern) (bodies : Nat → List Pattern)
  (step : Cursor → List Cursor)
  (advances : ∀ cursor, ∀ next ∈ step cursor, Advances text body bodies cursor next)

include advances

theorem times_spells (n : Nat) (cursor next : Cursor) (member : next ∈ times step n cursor) :
    cursor.pos ≤ next.pos ∧ Adds text bodies cursor next ∧ ∃ parts : List (List Char),
      parts.length = n ∧ (∀ part ∈ parts, Spells body part) ∧
        charsBetween text cursor.pos next.pos = parts.flatten := by
  induction n generalizing cursor with
  | zero =>
      rw [times, List.mem_singleton] at member
      subst next
      exact ⟨Nat.le_refl _, adds_self _ _ _, [], rfl, by simp, chars_between_self _ _⟩
  | succ n ih =>
      obtain ⟨middle, stepped, later⟩ := List.mem_flatMap.mp member
      have moved := advances cursor middle stepped
      obtain ⟨forward, adds, parts, count, each, content⟩ := ih middle later
      refine ⟨Nat.le_trans moved.forward forward, adds_trans moved.adds adds,
        charsBetween text cursor.pos middle.pos :: parts, by rw [List.length_cons, count], ?_, ?_⟩
      · exact List.forall_mem_cons.mpr ⟨moved.spells, each⟩
      · rw [chars_between_append text moved.forward forward, content, List.flatten_cons]

theorem up_to_spells (fuel : Nat) (most : Option Nat) (cursor next : Cursor)
    (member : next ∈ upTo step fuel most cursor) :
    cursor.pos ≤ next.pos ∧ Adds text bodies cursor next ∧ ∃ parts : List (List Char),
      (∀ bound, most = Option.some bound → parts.length ≤ bound) ∧
        (∀ part ∈ parts, Spells body part) ∧
        charsBetween text cursor.pos next.pos = parts.flatten := by
  have stays : ∀ bound, most = Option.some bound → ([] : List (List Char)).length ≤ bound :=
    fun bound _ => Nat.zero_le bound
  induction fuel generalizing most cursor with
  | zero =>
      rw [upTo, List.mem_singleton] at member
      subst next
      exact ⟨Nat.le_refl _, adds_self _ _ _, [], stays, by simp, chars_between_self _ _⟩
  | succ fuel ih =>
      rw [upTo] at member
      rcases List.mem_append.mp member with further | here
      · split at further
        · simp at further
        · rename_i allowed
          obtain ⟨middle, stepped, later⟩ := List.mem_flatMap.mp further
          have moved := advances cursor middle stepped
          split at later
          · -- the step stood still: it is the last part, and an empty one
            rw [List.mem_singleton] at later
            subst next
            refine ⟨moved.forward, moved.adds, [charsBetween text cursor.pos middle.pos],
              ?_, ?_, ?_⟩
            · intro bound given
              have positive : bound ≠ 0 := fun zero => allowed (by rw [given, zero])
              simp only [List.length_singleton]
              omega
            · intro part belongs
              rw [List.mem_singleton.mp belongs]
              exact moved.spells
            · simp
          · obtain ⟨forward, adds, parts, bounded, each, content⟩ :=
              ih (most.map (· - 1)) middle later fun bound _ => Nat.zero_le bound
            refine ⟨Nat.le_trans moved.forward forward, adds_trans moved.adds adds,
              charsBetween text cursor.pos middle.pos :: parts, ?_, ?_, ?_⟩
            · intro bound given
              have positive : bound ≠ 0 := fun zero => allowed (by rw [given, zero])
              have fewer := bounded (bound - 1) (by rw [given]; rfl)
              rw [List.length_cons]
              omega
            · exact List.forall_mem_cons.mpr ⟨moved.spells, each⟩
            · rw [chars_between_append text moved.forward forward, content, List.flatten_cons]
      · rw [List.mem_singleton] at here
        subst next
        exact ⟨Nat.le_refl _, adds_self _ _ _, [], stays, by simp, chars_between_self _ _⟩

theorem repeated_spells (least : Nat) (most : Option Nat) (fuel : Nat)
    (cursor middle next : Cursor) (required : middle ∈ times step least cursor)
    (more : next ∈ upTo step fuel (most.map (· - least)) middle) :
    Advances text (.repeated body least most) bodies cursor next := by
  obtain ⟨forward, adds, parts, count, each, content⟩ :=
    times_spells text body bodies step advances least cursor middle required
  obtain ⟨onward, addsMore, others, bounded, eachOther, rest⟩ :=
    up_to_spells text body bodies step advances _ _ middle next more
  refine ⟨Nat.le_trans forward onward, ?_, adds_trans adds addsMore⟩
  rw [chars_between_append text forward onward, content, rest, ← List.flatten_append]
  apply Spells.repeated
  · exact List.forall_mem_append.mpr ⟨each, eachOther⟩
  · rw [List.length_append]
    omega
  · intro bound given
    have fewer := bounded (bound - least) (by rw [given]; rfl)
    rw [List.length_append]
    omega

end Repetition

theorem run_spells (text : Array Char) (p : Pattern) (cursor : Cursor) :
    ∀ next ∈ p.run text cursor,
      Advances text p (fun index => groupBodies index p) cursor next := by
  induction p generalizing cursor with
  | empty =>
      intro next member
      rw [run, List.mem_singleton] at member
      subst next
      exact .still .empty
  | one cls =>
      intro next member
      rw [run] at member
      split at member
      · rename_i c here
        split at member
        · rename_i accepted
          rw [List.mem_singleton] at member
          subst next
          exact .one here accepted
        · simp at member
      · simp at member
  | seq first second ihFirst ihSecond =>
      intro next member
      obtain ⟨middle, left, right⟩ := List.mem_flatMap.mp member
      exact (ihFirst cursor middle left).seq (ihSecond middle next right)
  | alt first second ihFirst ihSecond =>
      intro next member
      rcases List.mem_append.mp member with left | right
      · have here := ihFirst cursor next left
        refine ⟨here.forward, .altFirst here.spells, adds_mono here.adds ?_⟩
        intro index body belongs
        exact List.mem_append_left _ belongs
      · have here := ihSecond cursor next right
        refine ⟨here.forward, .altSecond here.spells, adds_mono here.adds ?_⟩
        intro index body belongs
        exact List.mem_append_right _ belongs
  | repeated body least most ih =>
      intro next member
      obtain ⟨middle, required, more⟩ := List.mem_flatMap.mp member
      exact repeated_spells text body _ _ ih least most _ cursor middle next required more
  | group index body ih =>
      intro next member
      obtain ⟨inner, reached, same⟩ := List.mem_map.mp member
      subst next
      exact (ih cursor inner reached).group
  | edge =>
      intro next member
      rw [run] at member
      split at member
      · rw [List.mem_singleton] at member
        subst next
        exact .still .edge
      · simp at member
  | notAhead body _ =>
      intro next member
      rw [run] at member
      split at member
      · rw [List.mem_singleton] at member
        subst next
        exact .still .notAhead
      · simp at member
  | notBehind classes =>
      intro next member
      rw [run] at member
      split at member
      · simp at member
      · rw [List.mem_singleton] at member
        subst next
        exact .still .notBehind

/-- What a group of a match holds is spelled by the body of a group with its number. -/
theorem MatchesAt.group_spells {text : Array Char} {p : Pattern} {pos : Nat} {m : Match}
    (way : p.MatchesAt text pos m) (index : Nat) (content : List Char)
    (held : m.group? index = Option.some content) :
    ∃ body ∈ groupBodies index p, Spells body content := by
  obtain ⟨cursor, reached, rfl⟩ := way
  obtain ⟨new, groups, spelled⟩ := (run_spells text p ⟨pos, []⟩ cursor reached).adds
  unfold Match.group? at held
  obtain ⟨⟨own, chars⟩, listed, same⟩ := Option.map_eq_some_iff.mp held
  have member := List.mem_of_find?_eq_some listed
  have indexed := List.find?_some listed
  simp only [beq_iff_eq] at indexed same
  rw [Match.ofCursor, groups, List.append_nil] at member
  obtain ⟨entry, belongs, made⟩ := List.mem_map.mp member
  obtain ⟨body, inside, spells⟩ := spelled entry belongs
  cases made
  subst indexed
  subst same
  exact ⟨body, inside, spells⟩

end Reckon.Pattern

import Reckon.Proofs.Pattern.Spelling

/-!
# Which characters a pattern can match

The classes that a pattern reads with, and those that it can begin with. Every character of a match
is of one of the former, and its first character of one of the latter; so a pattern cannot match
where the text goes on with anything else.
-/

set_option autoImplicit false

namespace Reckon.Pattern

def mayBeEmpty : Pattern → Bool
  | empty | edge | notAhead _ | notBehind _ => true
  | one _ => false
  | seq first second => mayBeEmpty first && mayBeEmpty second
  | alt first second => mayBeEmpty first || mayBeEmpty second
  | repeated body least _ => least == 0 || mayBeEmpty body
  | group _ body => mayBeEmpty body

/-- The classes of the characters that a match can begin with. -/
def openings : Pattern → List CharClass
  | empty | edge | notAhead _ | notBehind _ => []
  | one cls => [cls]
  | seq first second => openings first ++ if mayBeEmpty first then openings second else []
  | alt first second => openings first ++ openings second
  | repeated body _ _ => openings body
  | group _ body => openings body

/-- The classes of all characters that a match can have. -/
def alphabet : Pattern → List CharClass
  | empty | edge | notAhead _ | notBehind _ => []
  | one cls => [cls]
  | seq first second | alt first second => alphabet first ++ alphabet second
  | repeated body _ _ | group _ body => alphabet body

variable {p : Pattern} {cs : List Char} {c : Char}

theorem Spells.may_be_empty (spells : Spells p cs) (nothing : cs = []) : p.mayBeEmpty = true := by
  induction spells with
  | empty | edge | notAhead | notBehind => rfl
  | one accepted => cases nothing
  | seq head tail ihHead ihTail =>
      obtain ⟨left, right⟩ := List.append_eq_nil_iff.mp nothing
      simp [Pattern.mayBeEmpty, ihHead left, ihTail right]
  | altFirst here ih => simp [Pattern.mayBeEmpty, ih nothing]
  | altSecond here ih => simp [Pattern.mayBeEmpty, ih nothing]
  | @repeated body least most parts each enough bounded ih =>
      cases parts with
      | nil =>
          have none : least = 0 := by simpa using enough
          simp [Pattern.mayBeEmpty, none]
      | cons part parts =>
          have first := ih part List.mem_cons_self (List.flatten_eq_nil_iff.mp nothing part
            List.mem_cons_self)
          simp [Pattern.mayBeEmpty, first]
  | group here ih => exact ih nothing

theorem exists_head_of_flatten {parts : List (List Char)}
    (begins : parts.flatten.head? = Option.some c) :
    ∃ part ∈ parts, part.head? = Option.some c := by
  induction parts with
  | nil => cases begins
  | cons part parts ih =>
      cases part with
      | nil =>
          obtain ⟨other, member, head⟩ := ih begins
          exact ⟨other, List.mem_cons_of_mem _ member, head⟩
      | cons d ds => exact ⟨d :: ds, List.mem_cons_self, begins⟩

/-- The first character that a pattern spells is of a class it can begin with. -/
theorem Spells.opens (spells : Spells p cs) (begins : cs.head? = Option.some c) :
    ∃ cls ∈ p.openings, cls.accepts c = true := by
  induction spells with
  | empty | edge | notAhead | notBehind => cases begins
  | @one cls d accepted =>
      cases begins
      exact ⟨cls, List.mem_singleton_self cls, accepted⟩
  | @seq first second left right head tail ihHead ihTail =>
      cases left with
      | nil =>
          obtain ⟨cls, member, accepted⟩ := ihTail begins
          refine ⟨cls, List.mem_append_right _ ?_, accepted⟩
          rw [if_pos (head.may_be_empty rfl)]
          exact member
      | cons d ds =>
          obtain ⟨cls, member, accepted⟩ := ihHead begins
          exact ⟨cls, List.mem_append_left _ member, accepted⟩
  | altFirst here ih =>
      obtain ⟨cls, member, accepted⟩ := ih begins
      exact ⟨cls, List.mem_append_left _ member, accepted⟩
  | altSecond here ih =>
      obtain ⟨cls, member, accepted⟩ := ih begins
      exact ⟨cls, List.mem_append_right _ member, accepted⟩
  | repeated parts each enough bounded ih =>
      obtain ⟨part, member, head⟩ := exists_head_of_flatten begins
      exact ih part member head
  | group here ih => exact ih begins

/-- Every character that a pattern spells is of a class it reads with. -/
theorem Spells.within (spells : Spells p cs) :
    ∀ c ∈ cs, ∃ cls ∈ p.alphabet, cls.accepts c = true := by
  induction spells with
  | empty | edge | notAhead | notBehind => simp
  | @one cls d accepted =>
      intro c member
      cases List.mem_singleton.mp member
      exact ⟨cls, List.mem_singleton_self cls, accepted⟩
  | seq head tail ihHead ihTail =>
      intro c member
      rcases List.mem_append.mp member with left | right
      · obtain ⟨cls, belongs, accepted⟩ := ihHead c left
        exact ⟨cls, List.mem_append_left _ belongs, accepted⟩
      · obtain ⟨cls, belongs, accepted⟩ := ihTail c right
        exact ⟨cls, List.mem_append_right _ belongs, accepted⟩
  | altFirst here ih =>
      intro c member
      obtain ⟨cls, belongs, accepted⟩ := ih c member
      exact ⟨cls, List.mem_append_left _ belongs, accepted⟩
  | altSecond here ih =>
      intro c member
      obtain ⟨cls, belongs, accepted⟩ := ih c member
      exact ⟨cls, List.mem_append_right _ belongs, accepted⟩
  | repeated parts each enough bounded ih =>
      intro c member
      obtain ⟨part, belongs, inside⟩ := List.mem_flatten.mp member
      exact ih part belongs c inside
  | group here ih => exact ih

section Matches

variable {text : Array Char} {pos : Nat} {m : Match}

theorem MatchesAt.spells (way : p.MatchesAt text pos m) : Spells p m.content := by
  obtain ⟨cursor, reached, rfl⟩ := way
  exact (run_spells text p ⟨pos, []⟩ cursor reached).spells

theorem head?_chars_between {start stop : Nat} (order : start < stop) (inside : stop ≤ text.size) :
    (charsBetween text start stop).head? = text[start]? := by
  have first := chars_between_append text (Nat.le_succ start) order
  obtain ⟨c, here⟩ : ∃ c, text[start]? = Option.some c :=
    ⟨_, Array.getElem?_eq_getElem (by omega)⟩
  rw [first, chars_between_one here, here]
  rfl

/-- A match that covers something begins with a character that its pattern can begin with. -/
theorem MatchesAt.opens (way : p.MatchesAt text pos m) (covers : m.start < m.stop) :
    ∃ c, text[pos]? = Option.some c ∧ ∃ cls ∈ p.openings, cls.accepts c = true := by
  obtain ⟨start, -, inside, content⟩ := way.range
  have within : m.stop ≤ text.size := by omega
  obtain ⟨c, here⟩ : ∃ c, text[pos]? = Option.some c :=
    ⟨_, Array.getElem?_eq_getElem (by omega)⟩
  refine ⟨c, here, way.spells.opens ?_⟩
  rw [content, head?_chars_between covers within, start, here]

/-- A pattern that has to match something covers something where it matches. -/
theorem MatchesAt.covers (way : p.MatchesAt text pos m) (solid : p.mayBeEmpty = false) :
    m.start < m.stop := by
  obtain ⟨-, forward, -, content⟩ := way.range
  by_contra still
  have same : m.start = m.stop := by omega
  rw [same, chars_between_self] at content
  have empty := way.spells.may_be_empty content
  rw [solid] at empty
  cases empty

/-- A search for a pattern that has to match something finds the preferred match at each place. -/
theorem Finds.preferred (finds : p.Finds text m) (solid : p.mayBeEmpty = false) :
    p.matchAt text m.start = Option.some m := by
  rcases finds with preferred | ⟨-, n, empty, still⟩
  · exact preferred
  · have way := matches_at_of_match_at empty
    have covers := way.covers solid
    have start := way.range.1
    omega

theorem match_at_of_mem_find_all (found : m ∈ p.findAll text) (solid : p.mayBeEmpty = false) :
    p.matchAt text m.start = Option.some m :=
  (find_all_finds found).preferred solid

end Matches

end Reckon.Pattern

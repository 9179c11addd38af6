import Reckon.Proofs.Forest.Heights
import Reckon.Proofs.Pattern.Endings

/-!
# The ends of nodes

A rule whose first item begins, and whose last item ends, with a character that is no white space
and no comma builds nodes without these at their ends: the gaps between its items stay inside. If
all rules are such, so are all trees, and none reaches into the white space around its text.
-/

set_option autoImplicit false

namespace Reckon

variable {α : Type}

/-- Whether what an item finds begins with ink, where nodes do. -/
def Item.opensInked : Item α → Bool
  | .text p => !p.mayBeEmpty && p.openings.all CharClass.isInk
  | .value _ => true

/-- Whether what an item finds ends with ink, where nodes do. -/
def Item.closesInked : Item α → Bool
  | .text p => !p.mayBeEmpty && p.closings.all CharClass.isInk
  | .value _ => true

def Rule.isTight (r : Rule α) : Bool :=
  r.items.head?.any Item.opensInked && r.items.getLast?.any Item.closesInked

/-- The character of a text at a place is neither trimmed nor a comma. -/
def InkAt (text : Array Char) (pos : Nat) : Prop :=
  ∃ c, text[pos]? = some c ∧ Text.isInk c = true

/-- A node with ink at both ends. -/
structure Node.Tight (text : Array Char) (node : Node α) : Prop where
  first : InkAt text node.chars.start.toNat
  last : InkAt text (node.chars.stop.toNat - 1)

namespace Forest

variable {rs : RuleSet α} {text : Array Char} {items : List (Item α)} {pos start stop : Nat}
  {findings : List (Finding α)} {children : List (Node α)} {node : Node α} {item : Item α}
  {p : Pattern} {m : Pattern.Match}

theorem match_opens (way : p.MatchesAt text pos m)
    (inked : (Item.text p : Item α).opensInked = true) : m.start < m.stop ∧ InkAt text m.start := by
  obtain ⟨solid, ink⟩ := (Bool.and_eq_true _ _).mp inked
  have covers := way.covers (by simpa using solid)
  obtain ⟨c, here, cls, member, accepted⟩ := way.opens covers
  have begins := way.range.1
  rw [← begins] at here
  exact ⟨covers, c, here, CharClass.ink_of_accepts (List.all_eq_true.mp ink cls member) accepted⟩

theorem match_closes (way : p.MatchesAt text pos m)
    (inked : (Item.text p : Item α).closesInked = true) :
    m.start < m.stop ∧ InkAt text (m.stop - 1) := by
  obtain ⟨solid, ink⟩ := (Bool.and_eq_true _ _).mp inked
  have covers := way.covers (by simpa using solid)
  obtain ⟨c, here, cls, member, accepted⟩ := way.closes covers
  exact ⟨covers, c, here, CharClass.ink_of_accepts (List.all_eq_true.mp ink cls member) accepted⟩

theorem laid_closes (laid : Laid text items pos findings children stop)
    (last : items.getLast? = some item) (inked : item.closesInked = true)
    (tight : ∀ child ∈ children, child.Tight text) : InkAt text (stop - 1) := by
  induction laid with
  | done pos => cases last
  | @text p rest pos stop m findings children found later ih =>
      cases rest with
      | nil =>
          cases last
          cases later
          obtain ⟨covers, ink⟩ := match_closes (Pattern.matches_at_of_match_at found) inked
          rwa [if_pos covers]
      | cons next rest => exact ih last tight
  | @value test rest pos stop node findings children begins passed later ih =>
      cases rest with
      | nil =>
          cases later
          exact (tight node List.mem_cons_self).last
      | cons next rest =>
          exact ih last fun child member => tight child (List.mem_cons_of_mem _ member)

theorem spread_opens (spread : Spread text items start findings children stop)
    (first : items.head? = some item) (inked : item.opensInked = true)
    (tight : ∀ child ∈ children, child.Tight text) : InkAt text start := by
  cases spread with
  | text found begins later =>
      cases first
      rw [← begins]
      exact (match_opens (Pattern.find_all_range _ _ _ found).2.2 inked).2
  | @value test rest start stop child findings children begins passed later =>
      have ink := (tight child List.mem_cons_self).first
      rwa [begins] at ink

theorem spread_closes (spread : Spread text items start findings children stop)
    (last : items.getLast? = some item) (inked : item.closesInked = true)
    (tight : ∀ child ∈ children, child.Tight text) : InkAt text (stop - 1) := by
  cases spread with
  | @text p rest start stop m findings children found begins later =>
      cases rest with
      | nil =>
          cases last
          cases later
          exact (match_closes (Pattern.find_all_range _ _ _ found).2.2 inked).2
      | cons next rest => exact laid_closes later last inked tight
  | @value test rest start stop child findings children begins passed later =>
      cases rest with
      | nil =>
          cases later
          exact (tight child List.mem_cons_self).last
      | cons next rest =>
          exact laid_closes later last inked fun child member =>
            tight child (List.mem_cons_of_mem _ member)

theorem builds_tight {r : Rule α} (tight : r.isTight = true) (built : Builds text r node)
    (parts : ∀ child ∈ node.children, child.Tight text) : node.Tight text := by
  obtain ⟨findings, ⟨start, stop, value, spread, -, -, shape⟩, -⟩ := built
  obtain ⟨opens, closes⟩ := (Bool.and_eq_true _ _).mp tight
  obtain ⟨first, here, inkedFirst⟩ := (Option.any_eq_true _ _).mp opens
  obtain ⟨last, there, inkedLast⟩ := (Option.any_eq_true _ _).mp closes
  rw [shape]
  exact ⟨spread_opens spread here inkedFirst parts, spread_closes spread there inkedLast parts⟩

theorem derives_tight (tight : ∀ r ∈ rs.rules, r.isTight = true)
    (derives : Derives rs text node) : node.Tight text := by
  induction derives with
  | intro node r member built parts ih => exact builds_tight (tight r member) built ih

end Forest

theorem ink_inside {cs : List Char} {pos : Nat} (ink : InkAt cs.toArray pos) :
    Text.leadingTrimmed cs ≤ pos ∧ pos < Text.leadingTrimmed cs + (Text.trim cs).length := by
  obtain ⟨c, here, ink⟩ := ink
  have untrimmed := Text.untrimmed_of_ink ink
  rw [List.getElem?_toArray, ← Text.trim_split cs] at here
  constructor
  · by_contra before
    rw [List.getElem?_append_left (by rw [Text.leadingTrimmed] at before; omega)] at here
    rw [Text.trimmed_of_mem_leading (List.mem_of_getElem? here)] at untrimmed
    cases untrimmed
  · by_contra behind
    rw [Text.leadingTrimmed] at behind
    rw [List.getElem?_append_right (by omega), List.getElem?_append_right (by omega)] at here
    rw [Text.trimmed_of_mem_trailing (List.mem_of_getElem? here)] at untrimmed
    cases untrimmed

end Reckon

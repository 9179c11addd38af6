import Reckon.Proofs.Forest.Derivation

/-!
# Layouts of short rules

What it takes to lay the items of a rule over a text, for the shapes of rules that numbers have: a
text or a node alone, a text before a node or behind one, two nodes, and two nodes with a text
between them.
-/

set_option autoImplicit false

namespace Reckon.Forest

variable {α : Type} {text : Array Char} {p : Pattern} {first second : α → Except Failure Bool}
  {start stop : Nat} {findings : List (Finding α)} {children : List (Node α)}

theorem spread_text_iff :
    Spread text [.text p] start findings children stop ↔
      ∃ m ∈ p.findAll text, m.start = start ∧ m.stop = stop ∧ findings = [.text m] ∧
        children = [] := by
  constructor
  · intro spread
    cases spread with
    | text found begins later =>
        cases later with
        | done => exact ⟨_, found, begins, rfl, rfl, rfl⟩
  · rintro ⟨m, found, begins, rfl, rfl, rfl⟩
    exact .text found begins (.done _)

theorem spread_value_iff :
    Spread text [.value first] start findings children stop ↔
      ∃ node : Node α, node.chars.start = start ∧ first node.value = .ok true ∧
        node.chars.stop.toNat = stop ∧ findings = [.value node.value] ∧ children = [node] := by
  constructor
  · intro spread
    cases spread with
    | value begins passed later =>
        cases later with
        | done => exact ⟨_, begins, passed, rfl, rfl, rfl⟩
  · rintro ⟨node, begins, passed, rfl, rfl, rfl⟩
    exact .value begins passed (.done _)

theorem spread_value_text_iff :
    Spread text [.value first, .text p] start findings children stop ↔
      ∃ (node : Node α) (m : Pattern.Match), node.chars.start = start ∧
        first node.value = .ok true ∧
        p.matchAt text (Text.gapEnd text node.chars.stop.toNat) = some m ∧
        (if m.start < m.stop then m.stop else node.chars.stop.toNat) = stop ∧
        findings = [.value node.value, .text m] ∧ children = [node] := by
  constructor
  · intro spread
    cases spread with
    | value begins passed later =>
        cases later with
        | text found last =>
            cases last with
            | done => exact ⟨_, _, begins, passed, found, rfl, rfl, rfl⟩
  · rintro ⟨node, m, begins, passed, found, rfl, rfl, rfl⟩
    exact .value begins passed (.text found (.done _))

theorem spread_text_value_iff :
    Spread text [.text p, .value second] start findings children stop ↔
      ∃ m ∈ p.findAll text, ∃ node : Node α, m.start = start ∧
        node.chars.start = Text.gapEnd text m.stop ∧ second node.value = .ok true ∧
        node.chars.stop.toNat = stop ∧ findings = [.text m, .value node.value] ∧
        children = [node] := by
  constructor
  · intro spread
    cases spread with
    | text found begins later =>
        cases later with
        | value place passed last =>
            cases last with
            | done => exact ⟨_, found, _, begins, place, passed, rfl, rfl, rfl⟩
  · rintro ⟨m, found, node, begins, place, passed, rfl, rfl, rfl⟩
    exact .text found begins (.value place passed (.done _))

theorem spread_value_value_iff :
    Spread text [.value first, .value second] start findings children stop ↔
      ∃ left right : Node α, left.chars.start = start ∧ first left.value = .ok true ∧
        right.chars.start = Text.gapEnd text left.chars.stop.toNat ∧
        second right.value = .ok true ∧ right.chars.stop.toNat = stop ∧
        findings = [.value left.value, .value right.value] ∧ children = [left, right] := by
  constructor
  · intro spread
    cases spread with
    | value begins passed later =>
        cases later with
        | value place passedToo last =>
            cases last with
            | done => exact ⟨_, _, begins, passed, place, passedToo, rfl, rfl, rfl⟩
  · rintro ⟨left, right, begins, passed, place, passedToo, rfl, rfl, rfl⟩
    exact .value begins passed (.value place passedToo (.done _))

theorem spread_value_text_value_iff :
    Spread text [.value first, .text p, .value second] start findings children stop ↔
      ∃ (left right : Node α) (m : Pattern.Match), left.chars.start = start ∧
        first left.value = .ok true ∧
        p.matchAt text (Text.gapEnd text left.chars.stop.toNat) = some m ∧
        right.chars.start =
          Text.gapEnd text (if m.start < m.stop then m.stop else left.chars.stop.toNat) ∧
        second right.value = .ok true ∧ right.chars.stop.toNat = stop ∧
        findings = [.value left.value, .text m, .value right.value] ∧
        children = [left, right] := by
  constructor
  · intro spread
    cases spread with
    | value begins passed later =>
        cases later with
        | text found more =>
            cases more with
            | value place passedToo last =>
                cases last with
                | done => exact ⟨_, _, _, begins, passed, found, place, passedToo, rfl, rfl, rfl⟩
  · rintro ⟨left, right, m, begins, passed, found, place, passedToo, rfl, rfl, rfl⟩
    exact .value begins passed (.text found (.value place passedToo (.done _)))

end Reckon.Forest

import Reckon.Proofs.Forest.Saturation

/-!
# Properties that rules keep

If what each rule makes of values with a property has the property, then so has the value of every
derivation tree. A rule can be looked at alone: what its items find is a match of a pattern
somewhere, or a value with the property that passes the test.
-/

set_option autoImplicit false

namespace Reckon.Forest

variable {α : Type}

/-- What an item can find in a text, given what is known of the values of nodes. -/
def Fits (text : Array Char) (P : α → Prop) : Item α → Finding α → Prop
  | .text p, .text m => p.Finds text m
  | .value test, .value v => test v = .ok true ∧ P v
  | _, _ => False

/-- A rule makes values with a property of values with the property. -/
def Keeps (P : α → Prop) (r : Rule α) : Prop :=
  ∀ text findings v, List.Forall₂ (Fits text P) r.items findings →
    r.produce findings = .ok (some v) → P v

theorem laid_fits {text : Array Char} {P : α → Prop} {items : List (Item α)} {pos stop : Nat}
    {findings : List (Finding α)} {children : List (Node α)}
    (laid : Laid text items pos findings children stop)
    (known : ∀ child ∈ children, P child.value) :
    List.Forall₂ (Fits text P) items findings := by
  induction laid with
  | done pos => exact .nil
  | text found later ih => exact .cons (Pattern.finds_of_match_at found) (ih known)
  | value begins passed later ih =>
      exact .cons ⟨passed, known _ List.mem_cons_self⟩
        (ih fun child member => known child (List.mem_cons_of_mem _ member))

theorem spread_fits {text : Array Char} {P : α → Prop} {items : List (Item α)} {start stop : Nat}
    {findings : List (Finding α)} {children : List (Node α)}
    (spread : Spread text items start findings children stop)
    (known : ∀ child ∈ children, P child.value) :
    List.Forall₂ (Fits text P) items findings := by
  cases spread with
  | text found begins later =>
      exact .cons (Pattern.find_all_finds found) (laid_fits later known)
  | value begins passed later =>
      exact .cons ⟨passed, known _ List.mem_cons_self⟩
        (laid_fits later fun child member => known child (List.mem_cons_of_mem _ member))

/-- A value that a rule finds has passed one of its tests, and has what is known of all. -/
theorem passed_of_fits {text : Array Char} {P : α → Prop} {items : List (Item α)}
    {findings : List (Finding α)} (fits : List.Forall₂ (Fits text P) items findings) {w : α}
    (member : .value w ∈ findings) : ∃ test, .value test ∈ items ∧ test w = .ok true ∧ P w := by
  induction fits with
  | nil => cases member
  | @cons item finding items findings first rest ih =>
      rcases List.mem_cons.mp member with rfl | later
      · cases item with
        | text p => exact first.elim
        | value test => exact ⟨test, List.mem_cons_self, first⟩
      · obtain ⟨test, inside, passed⟩ := ih later
        exact ⟨test, List.mem_cons_of_mem _ inside, passed⟩

/-- A property that all rules keep holds of the value of every derivation tree. -/
theorem derives_keeps {rs : RuleSet α} {text : Array Char} {P : α → Prop}
    (keeps : ∀ r ∈ rs.rules, Keeps P r) {node : Node α} (derives : Derives rs text node) :
    P node.value := by
  induction derives with
  | intro node r member built parts ih =>
      obtain ⟨findings, ⟨start, stop, value, spread, made, -, shape⟩, -⟩ := built
      have fits := spread_fits spread ih
      rw [shape]
      exact keeps r member text findings value fits made

end Reckon.Forest

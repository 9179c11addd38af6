import Reckon.English.Vocabulary
import Reckon.Proofs.Forest.Preservation

/-!
# What the items of English rules find

A rule is given findings that fit its items one by one; a test on a type of values finds a value of
that type.
-/

set_option autoImplicit false

namespace Reckon.English

open Forest

theorem findings_one {R : Item Value → Finding Value → Prop} {a : Item Value}
    {findings : List (Finding Value)} (fits : List.Forall₂ R [a] findings) :
    ∃ x, findings = [x] ∧ R a x := by
  cases fits with
  | cons first rest =>
      cases rest with
      | nil => exact ⟨_, rfl, first⟩

theorem findings_two {R : Item Value → Finding Value → Prop} {a b : Item Value}
    {findings : List (Finding Value)} (fits : List.Forall₂ R [a, b] findings) :
    ∃ x y, findings = [x, y] ∧ R a x ∧ R b y := by
  cases fits with
  | cons first rest =>
      obtain ⟨y, same, second⟩ := findings_one rest
      exact ⟨_, y, by rw [same], first, second⟩

theorem findings_three {R : Item Value → Finding Value → Prop} {a b c : Item Value}
    {findings : List (Finding Value)} (fits : List.Forall₂ R [a, b, c] findings) :
    ∃ x y z, findings = [x, y, z] ∧ R a x ∧ R b y ∧ R c z := by
  cases fits with
  | cons first rest =>
      obtain ⟨y, z, same, second, third⟩ := findings_two rest
      exact ⟨_, y, z, by rw [same], first, second, third⟩

theorem findings_four {R : Item Value → Finding Value → Prop} {a b c d : Item Value}
    {findings : List (Finding Value)} (fits : List.Forall₂ R [a, b, c, d] findings) :
    ∃ w x y z, findings = [w, x, y, z] ∧ R a w ∧ R b x ∧ R c y ∧ R d z := by
  cases fits with
  | cons first rest =>
      obtain ⟨x, y, z, same, second, third, fourth⟩ := findings_three rest
      exact ⟨_, x, y, z, by rw [same], first, second, third, fourth⟩

section Items

variable {text : Array Char} {P : Value → Prop} {x : Finding Value}

theorem fits_text {p : Pattern} (fits : Fits text P (.text p) x) :
    ∃ m, x = .text m ∧ p.Finds text m := by
  cases x with
  | text m => exact ⟨m, rfl, fits⟩
  | value v => exact fits.elim

theorem fits_holding {test : Value → Bool} (fits : Fits text P (.holding test) x) :
    ∃ v, x = .value v ∧ test v = true ∧ P v := by
  cases x with
  | text m => exact fits.elim
  | value v => exact ⟨v, rfl, Except.ok.inj fits.1, fits.2⟩

theorem holds_of (d : Dimension) {test : d.Holds → Bool} {v : Value}
    (passed : (v.part? d).any test = true) : ∃ held, v = .of d held ∧ test held = true := by
  obtain ⟨held, part, passes⟩ := (Option.any_eq_true _ _).mp passed
  exact ⟨held, Value.part?_eq_some.mp part, passes⟩

theorem fits_of (d : Dimension) {test : d.Holds → Bool} (fits : Fits text P (Test.of d test) x) :
    ∃ held, x = .value (.of d held) ∧ test held = true ∧ P (.of d held) := by
  obtain ⟨v, same, passed, known⟩ := fits_holding fits
  obtain ⟨held, rfl, passes⟩ := holds_of d passed
  exact ⟨held, same, passes, known⟩

end Items

/-- A rule keeps a property that all it can make has, whatever it finds. -/
theorem keeps_of_made {P : Value → Prop} {name : String} {items : List (Item Value)}
    {produce : List (Finding Value) → Produced}
    (made : ∀ findings v, produce findings = .ok (some v) → P v) : Keeps P ⟨name, items, produce⟩ :=
  fun _ findings v _ ran => made findings v ran

/-! Tables. -/

theorem mem_of_look_up {β : Type} {table : List (String × β)} {word : String} {entry : β}
    (found : lookUp table word = some entry) : ∃ name, (name, entry) ∈ table := by
  obtain ⟨⟨name, value⟩, listed, same⟩ := Option.map_eq_some_iff.mp found
  cases same
  exact ⟨name, List.mem_of_find?_eq_some listed⟩

theorem mem_of_entry_of {β : Type} {table : List (String × β)} {word : String} {entry : β}
    (found : entryOf table word = .ok entry) : ∃ name, (name, entry) ∈ table := by
  unfold entryOf at found
  split at found
  · rename_i value listed
    cases found
    exact mem_of_look_up listed
  · cases found

end Reckon.English

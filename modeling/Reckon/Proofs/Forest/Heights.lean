import Reckon.Proofs.Forest.Preservation
import Reckon.Proofs.Pattern.Alphabet

/-!
# How high trees can grow

A rule covers its children one beside the other, and every other item of it that has to match
something takes up room as well. So a tree is wider than its parts, unless a child is all there is.
If such a step always uses up a spare level that the child has left, trees are no higher than they
are wide, up to the spare levels; then growth comes to an end by itself.
-/

set_option autoImplicit false

namespace Reckon

variable {α : Type}

def Item.isSolid : Item α → Bool
  | .text p => !p.mayBeEmpty
  | .value _ => true

/-- How many items of a rule have to cover something. -/
def Rule.solidCount (r : Rule α) : Nat :=
  r.items.countP Item.isSolid

def Node.width (node : Node α) : Nat :=
  (node.chars.stop - node.chars.start).toNat

namespace Forest

variable {rs : RuleSet α} {text : Array Char} {items : List (Item α)} {pos start stop : Nat}
  {findings : List (Finding α)} {children : List (Node α)} {node : Node α}

theorem Covers.width (covers : Covers text node start stop) : start + node.width = stop := by
  have nonempty := covers.nonempty
  rw [Node.width, covers.chars]
  simp only
  omega

/-! What a rule finds, taken apart. -/

theorem laid_values (laid : Laid text items pos findings children stop) :
    ∀ child ∈ children, .value child.value ∈ findings := by
  induction laid with
  | done pos => simp
  | text found later ih => exact fun child member => List.mem_cons_of_mem _ (ih child member)
  | value begins passed later ih =>
      refine List.forall_mem_cons.mpr ⟨List.mem_cons_self, fun child member => ?_⟩
      exact List.mem_cons_of_mem _ (ih child member)

theorem spread_values (spread : Spread text items start findings children stop) :
    ∀ child ∈ children, .value child.value ∈ findings := by
  cases spread with
  | text found begins later =>
      exact fun child member => List.mem_cons_of_mem _ (laid_values later child member)
  | value begins passed later =>
      refine List.forall_mem_cons.mpr ⟨List.mem_cons_self, fun child member => ?_⟩
      exact List.mem_cons_of_mem _ (laid_values later child member)

/-! The room that the items of a rule take up. -/

theorem match_room {p : Pattern} {m : Pattern.Match} (way : p.MatchesAt text pos m) :
    m.start + (if (Item.text p : Item α).isSolid then 1 else 0) ≤ m.stop := by
  split
  · rename_i solid
    exact way.covers (by simpa [Item.isSolid] using solid)
  · exact way.range.2.1

theorem child_room {first last count : Nat} (covers : Covers text node first last)
    (begins : pos ≤ first) (room : last + count ≤ stop)
    (beside : ∀ child ∈ children, last + count + child.width ≤ stop + 1) :
    pos + (count + 1) ≤ stop ∧
      ∀ child ∈ node :: children, pos + (count + 1) + child.width ≤ stop + 1 := by
  have width := covers.width
  have nonempty := covers.nonempty
  refine ⟨by omega, List.forall_mem_cons.mpr ⟨by omega, fun child member => ?_⟩⟩
  have bound := beside child member
  omega

/-- Items laid over a text take up a character for each solid one, and each child among them takes
up its width. -/
theorem laid_room (laid : Laid text items pos findings children stop)
    (covered : ∀ child ∈ children, ∃ first last, Covers text child first last) :
    pos + items.countP Item.isSolid ≤ stop ∧
      ∀ child ∈ children, pos + items.countP Item.isSolid + child.width ≤ stop + 1 := by
  induction laid with
  | done pos => simp
  | @text p rest pos stop m findings children found later ih =>
      obtain ⟨room, beside⟩ := ih covered
      have begins := (Pattern.match_at_range text p _ m found).1
      have gap := gap_end_range text pos
      have taken : pos + (if (Item.text p : Item α).isSolid then 1 else 0) ≤
          if m.start < m.stop then m.stop else pos := by
        have solid := match_room (α := α) (Pattern.matches_at_of_match_at found)
        generalize (if (Item.text p : Item α).isSolid then 1 else 0) = needed at solid ⊢
        split <;> omega
      rw [List.countP_cons]
      refine ⟨by omega, fun child member => ?_⟩
      have bound := beside child member
      omega
  | @value test rest pos stop child findings children begins passed later ih =>
      obtain ⟨⟨first, last, covers⟩, others⟩ := List.forall_mem_cons.mp covered
      obtain ⟨room, beside⟩ := ih others
      have gap := gap_end_range text pos
      rw [covers.chars] at begins room beside
      rw [List.countP_cons_of_pos rfl]
      refine child_room covers ?_ room beside
      simp only [Int.ofNat_inj] at begins
      omega

theorem spread_room (spread : Spread text items start findings children stop)
    (covered : ∀ child ∈ children, ∃ first last, Covers text child first last) :
    ∀ child ∈ children, start + items.countP Item.isSolid + child.width ≤ stop + 1 := by
  cases spread with
  | @text p rest _ _ m findings _ found begins later =>
      intro child member
      have bound := (laid_room later covered).2 child member
      have taken := match_room (α := α) (Pattern.find_all_range text _ _ found).2.2
      rw [List.countP_cons]
      omega
  | @value test rest _ _ child findings children begins passed later =>
      obtain ⟨⟨first, last, covers⟩, others⟩ := List.forall_mem_cons.mp covered
      obtain ⟨room, beside⟩ := laid_room later others
      rw [covers.chars] at begins room beside
      rw [List.countP_cons_of_pos rfl]
      refine (child_room covers ?_ room beside).2
      simp only [Int.ofNat_inj] at begins
      omega

theorem spread_opens_solid (spread : Spread text items start findings children stop)
    (solid : items.head?.any Item.isSolid = true) : opensEmpty findings = false := by
  cases spread with
  | text found begins later =>
      have covers := (Pattern.find_all_range text _ _ found).2.2.covers
        (by simpa [Item.isSolid] using solid)
      simpa [opensEmpty] using covers
  | value begins passed later => rfl

/-- What a rule with a solid first item makes of derivation trees is the value of one. -/
theorem derives_of_spread {r : Rule α} (member : r ∈ rs.rules)
    (solid : r.items.head?.any Item.isSolid = true) {v : α}
    (spread : Spread text r.items start findings children stop)
    (ran : r.produce findings = .ok (some v)) (nonempty : start < stop)
    (parts : ∀ child ∈ children, Derives rs text child) :
    ∃ node, Derives rs text node ∧ node.chars = ⟨start, stop⟩ ∧ node.value = v := by
  refine ⟨.mk r.name ⟨start, stop⟩ ⟨byteAt text start, byteAt text stop⟩ v children, ?_, rfl, rfl⟩
  refine .intro _ r member ⟨findings, ⟨start, stop, v, spread, ran, nonempty, rfl⟩, .inr ?_⟩ parts
  intro others other makes empty
  obtain ⟨start', stop', v', again, -⟩ := makes
  rw [spread_opens_solid again solid] at empty
  cases empty

/-! Heights. -/

/-- What a rule makes of a value pays for the level it adds: with another solid item, or else with a
spare level that the value has not used. -/
def Lengthens (spare : α → Nat) (r : Rule α) : Prop :=
  ∀ text findings v, List.Forall₂ (Fits text fun _ => True) r.items findings →
    r.produce findings = .ok (some v) → ∀ w, .value w ∈ findings →
      spare w + 2 ≤ r.solidCount + spare v

/-- If all rules pay for their levels, a tree is at most as high as it is wide, up to the spare
levels of its value. -/
theorem derives_height_le {spare : α → Nat} (lengthens : ∀ r ∈ rs.rules, Lengthens spare r)
    (derives : Derives rs text node) : node.height ≤ node.width + spare node.value := by
  induction derives with
  | intro node r member built parts ih =>
      have covered : ∀ child ∈ node.children, ∃ first last, Covers text child first last :=
        fun child inside => derives_covers (parts child inside)
      obtain ⟨findings, ⟨start, stop, v, spread, made, nonempty, shape⟩, -⟩ := built
      have chars : node.chars = ⟨start, stop⟩ := by rw [shape]; rfl
      have width : start + node.width = stop := by
        rw [Node.width, chars]
        simp only
        omega
      have value : node.value = v := by rw [shape]; rfl
      have low : ∀ child ∈ node.children, child.height ≤ node.width + spare v - 1 := by
        intro child inside
        have height := ih child inside
        have beside := spread_room spread covered child inside
        have paid := lengthens r member text findings v
          (spread_fits spread fun _ _ => trivial) made _ (spread_values spread child inside)
        rw [Rule.solidCount] at paid
        omega
      have tallest := (Node.tallest_le_iff node.children _).mpr low
      rw [node.height_eq, value]
      omega

end Forest

namespace RuleSet

open Forest

variable {rs : RuleSet α} {text : Array Char}

/-- Growth that has a round left when the trees are used up ends by itself, with all trees, or at
the bound on nodes. -/
theorem apply_within (distinct : rs.ruleNames.Nodup) (unfailing : Unfailing rs text) {bound : Nat}
    (low : ∀ node, Derives rs text node → node.height ≤ bound) (rounds : bound < rs.maxRounds) :
    ∃ entries notices, rs.apply text = .ok (entries, notices) ∧
      (notices = [] ∧ (∀ node, node ∈ entries.map (·.node) ↔ Derives rs text node) ∨
        notices = [.nodeCap rs.maxNodes] ∧ rs.maxNodes ≤ entries.length) := by
  obtain ⟨⟨entries, notices⟩, ran⟩ := apply_returns unfailing
  obtain ⟨k, exhausts, least, explains⟩ := apply_exact distinct ran
  refine ⟨entries, notices, ran, ?_⟩
  rcases explains with ⟨plain, none⟩ | ⟨cut, -, full⟩ | ⟨-, spent⟩
  · refine .inl ⟨plain, fun node => (exhausts.exact node).trans ?_⟩
    exact ⟨And.left, fun derives => ⟨derives, height_le_of_none none derives⟩⟩
  · exact .inr ⟨cut, full⟩
  · -- the rounds outlast the trees: growth would have ended at the bound on heights
    have ends : Ends rs text bound := .inr (.inl fun node derives same => by
      have height := low node derives
      omega)
    have early := least.2 ends
    omega

end RuleSet

end Reckon

import Mathlib
import Reckon.Scoring.Model
import Reckon.Proofs.Forest.Saturation

/-!
# Scores are sums over trees

Where children stand before their parents, every look-up of a score succeeds and finds the sum over
the tree of the child. So the score of an entry is that of its tree, wherever the tree stands, and
the rules in the tree decide it. An own score is the logarithm of a probability and never positive:
no tree scores above its parts.
-/

set_option autoImplicit false

namespace Reckon

open Forest Sequencing

variable {α : Type}

/-! Sums of scores. -/

namespace Score

theorem finite_le_iff (a b : Int) : (finite a).le (finite b) = true ↔ a ≤ b :=
  decide_eq_true_iff

theorem neg_le_zero (units : Nat) : (finite (-(units : Int))).le zero = true :=
  (finite_le_iff _ _).mpr (by omega)

theorem le_trans {a b c : Score} (first : a.le b = true) (second : b.le c = true) :
    a.le c = true := by
  cases a with
  | negInfinity => rfl
  | finite x =>
      cases b with
      | negInfinity => cases first
      | finite y =>
          cases c with
          | negInfinity => cases second
          | finite z =>
              rw [finite_le_iff] at first second ⊢
              omega

theorem add_mono (a : Score) {b c : Score} (below : b.le c = true) :
    (a.add b).le (a.add c) = true := by
  cases a with
  | negInfinity => rfl
  | finite x =>
      cases b with
      | negInfinity => rfl
      | finite y =>
          cases c with
          | negInfinity => cases below
          | finite z =>
              rw [finite_le_iff] at below
              exact (finite_le_iff _ _).mpr (by omega)

theorem add_le {a : Score} (low : a.le zero = true) (b : Score) : (a.add b).le b = true := by
  have below := add_mono b low
  rwa [add_zero, add_comm] at below

theorem total_cons (s : Score) (rest : List Score) : total (s :: rest) = s.add (total rest) := rfl

theorem total_append (first second : List Score) :
    total (first ++ second) = (total first).add (total second) := by
  induction first with
  | nil => exact (zero_add _).symm
  | cons s first ih => rw [List.cons_append, total_cons, total_cons, ih, add_assoc]

theorem total_le_of_sublist {part whole : List Score} (chosen : part.Sublist whole)
    (low : ∀ s ∈ whole, s.le zero = true) : (total whole).le (total part) = true := by
  induction chosen with
  | slnil => exact le_refl _
  | cons s chosen ih =>
      obtain ⟨here, rest⟩ := List.forall_mem_cons.mp low
      exact le_trans (add_le here _) (ih rest)
  | cons_cons s chosen ih =>
      exact add_mono s (ih (List.forall_mem_cons.mp low).2)

end Score

/-! The rules in a tree. -/

inductive RuleTree where
  | mk (rule : String) (parts : List RuleTree)

def RuleTree.rule : RuleTree → String
  | mk rule _ => rule

namespace Node

mutual

def ruleTree : Node α → RuleTree
  | mk rule _ _ _ children => .mk rule (ruleTrees children)

def ruleTrees : List (Node α) → List RuleTree
  | [] => []
  | node :: rest => node.ruleTree :: ruleTrees rest

end

theorem map_rule_rule_trees (nodes : List (Node α)) :
    (ruleTrees nodes).map (·.rule) = nodes.map (·.rule) := by
  induction nodes with
  | nil => rfl
  | cons node rest ih =>
      cases node
      rw [ruleTrees, List.map_cons, List.map_cons, ih]
      rfl

theorem rule_tree_eq (node : Node α) : node.ruleTree = .mk node.rule (ruleTrees node.children) := by
  cases node
  rfl

theorem features_congr {node other : Node α} (same : node.ruleTree = other.ruleTree) :
    node.features = other.features := by
  rw [rule_tree_eq, rule_tree_eq] at same
  obtain ⟨own, parts⟩ := RuleTree.mk.inj same
  have names := congrArg (List.map (·.rule)) parts
  rw [map_rule_rule_trees, map_rule_rule_trees] at names
  have empty := congrArg List.isEmpty names
  rw [List.isEmpty_map, List.isEmpty_map] at empty
  rw [features, features, own, names, empty]

theorem map_features_congr (node : Node α) : ∀ other : Node α, node.ruleTree = other.ruleTree →
    node.subtree.map (·.features) = other.subtree.map (·.features) := by
  apply Node.rec
    (motive_1 := fun node => ∀ other : Node α, node.ruleTree = other.ruleTree →
      node.subtree.map (·.features) = other.subtree.map (·.features))
    (motive_2 := fun nodes => ∀ others : List (Node α), ruleTrees nodes = ruleTrees others →
      (subtrees nodes).map (·.features) = (subtrees others).map (·.features))
  · intro rule chars bytes value children ih other same
    have own := features_congr same
    cases other with
    | mk rule' chars' bytes' value' children' =>
        rw [subtree, subtree, List.map_cons, List.map_cons, own,
          ih children' (RuleTree.mk.inj same).2]
  · intro others same
    cases others with
    | nil => rfl
    | cons other others => cases same
  · intro node rest ihNode ihRest others same
    cases others with
    | nil => cases same
    | cons other others =>
        obtain ⟨head, tail⟩ := List.cons.inj same
        rw [subtrees, subtrees, List.map_append, List.map_append, ihNode other head,
          ihRest others tail]

theorem subtree_sublist (node : Node α) : ∀ d ∈ node.subtree, d.subtree.Sublist node.subtree := by
  apply Node.rec
    (motive_1 := fun node => ∀ d ∈ node.subtree, d.subtree.Sublist node.subtree)
    (motive_2 := fun nodes => ∀ d ∈ subtrees nodes, d.subtree.Sublist (subtrees nodes))
  · intro rule chars bytes value children ih d member
    rw [subtree] at member ⊢
    rcases List.mem_cons.mp member with rfl | below
    · rw [subtree]
    · exact (ih d below).cons _
  · simp [subtrees]
  · intro node rest ihNode ihRest d member
    rw [subtrees] at member ⊢
    rcases List.mem_append.mp member with here | later
    · exact (ihNode d here).trans (List.sublist_append_left _ _)
    · exact (ihRest d later).trans (List.sublist_append_right _ _)

theorem mem_subtree_iff (node d : Node α) :
    d ∈ node.subtree ↔ d = node ∨ ∃ child ∈ node.children, d ∈ child.subtree := by
  have among : ∀ nodes : List (Node α),
      d ∈ subtrees nodes ↔ ∃ child ∈ nodes, d ∈ child.subtree := by
    intro nodes
    induction nodes with
    | nil => simp [subtrees]
    | cons child rest ih => simp [subtrees, ih]
  cases node
  rw [subtree, List.mem_cons, among]
  rfl

end Node

/-! Own scores. -/

theorem LogSigmoid.score_le_zero (z : Int) (scale : Nat) :
    (LogSigmoid.score z scale).le .zero = true := by
  unfold LogSigmoid.score
  simp only
  split
  · exact Score.neg_le_zero _
  · split
    · rfl
    · exact Score.neg_le_zero _

theorem LogSigmoid.complement_score_le_zero (z : Int) (scale : Nat) :
    (LogSigmoid.complementScore z scale).le .zero = true := by
  unfold LogSigmoid.complementScore
  simp only
  split
  · rfl
  · split
    · rfl
    · exact Score.neg_le_zero _
    · rfl

namespace Model

theorem own_score_le_zero (m : Model) (node : Node α) : (m.ownScore node).le .zero = true := by
  unfold ownScore featureScore
  simp only
  split
  · exact LogSigmoid.complement_score_le_zero _ _
  · exact LogSigmoid.score_le_zero _ _

/-- The sum of the own scores over a tree. -/
def treeScore (m : Model) (node : Node α) : Score :=
  Score.total (node.subtree.map m.ownScore)

theorem total_subtrees (m : Model) (nodes : List (Node α)) :
    Score.total ((Node.subtrees nodes).map m.ownScore) = Score.total (nodes.map m.treeScore) := by
  induction nodes with
  | nil => rfl
  | cons node rest ih =>
      rw [Node.subtrees, List.map_append, Score.total_append, ih]
      rfl

theorem tree_score_eq (m : Model) (node : Node α) :
    m.treeScore node = (m.ownScore node).add (Score.total (node.children.map m.treeScore)) := by
  rw [← total_subtrees]
  cases node
  rfl

theorem tree_score_congr (m : Model) {node other : Node α} (same : node.ruleTree = other.ruleTree) :
    m.treeScore node = m.treeScore other := by
  have own : ∀ n : Node α, m.treeScore n =
      Score.total ((n.subtree.map (·.features)).map m.featureScore) := by
    intro n
    rw [List.map_map]
    rfl
  rw [own, own, Node.map_features_congr node other same]

theorem tree_score_le_of_mem (m : Model) {node d : Node α} (part : d ∈ node.subtree) :
    (m.treeScore node).le (m.treeScore d) = true := by
  refine Score.total_le_of_sublist ((node.subtree_sublist d part).map _) ?_
  exact List.forall_mem_map.mpr fun n _ => m.own_score_le_zero n

theorem tree_score_le_zero (m : Model) (node : Node α) : (m.treeScore node).le .zero = true := by
  refine Score.total_le_of_sublist (List.nil_sublist _) ?_
  exact List.forall_mem_map.mpr fun n _ => m.own_score_le_zero n

/-! Scores of entries. -/

theorem score_entry_linked (m : Model) {done rest : List (Entry α)} {e : Entry α}
    (linked : Linked (done ++ rest) done.length e) :
    m.scoreEntry (done.map fun d => m.treeScore d.node).toArray e = .ok (m.treeScore e.node) := by
  refine (bind_ok_iff _ _ _).mpr ⟨e.node.children.map m.treeScore, ?_, ?_⟩
  · rw [map_m_ok_iff, List.forall₂_map_right_iff]
    refine linked.imp ?_
    rintro part child ⟨before, here⟩
    rw [List.getElem?_append_left before] at here
    obtain ⟨d, found, rfl⟩ := Option.map_eq_some_iff.mp here
    simp [found]
  · rw [tree_score_eq]
    rfl

theorem scores_from_linked (m : Model) (done rest : List (Entry α))
    (linked : ∀ place e, (done ++ rest)[place]? = some e → Linked (done ++ rest) place e) :
    m.scoresFrom (done.map fun d => m.treeScore d.node).toArray rest =
      .ok ((done ++ rest).map fun d => m.treeScore d.node).toArray := by
  -- on the entries left: those done have the scores of their trees
  induction rest generalizing done with
  | nil => simp [scoresFrom]
  | cons e rest ih =>
      have here : (done ++ e :: rest)[done.length]? = some e := by simp
      refine (bind_ok_iff _ _ _).mpr ⟨_, m.score_entry_linked (linked _ e here), ?_⟩
      have shift : done ++ e :: rest = (done ++ [e]) ++ rest := by simp
      rw [shift] at linked ⊢
      rw [← ih (done ++ [e]) linked]
      simp

/-- Entries that stand after their children have the scores of their trees. -/
theorem scores_linked (m : Model) {entries : List (Entry α)}
    (linked : ∀ place e, entries[place]? = some e → Linked entries place e) :
    m.scores entries = .ok (entries.map fun e => m.treeScore e.node) := by
  refine (bind_ok_iff _ _ _).mpr ⟨_, m.scores_from_linked [] entries linked, ?_⟩
  rw [List.nil_append]
  rfl

theorem exists_of_mem_children {entries : List (Entry α)} {place : Nat} {e : Entry α}
    (linked : Linked entries place e) : ∀ child ∈ e.node.children,
      ∃ part < place, (entries[part]?).map (·.node) = some child := by
  unfold Linked at linked
  generalize e.parts = parts, e.node.children = children at linked
  induction linked with
  | nil => simp
  | cons head tail ih => exact List.forall_mem_cons.mpr ⟨⟨_, head⟩, ih⟩

theorem exists_of_mem_subtree {entries : List (Entry α)}
    (linked : ∀ place e, entries[place]? = some e → Linked entries place e) (place : Nat)
    (e : Entry α) (here : entries[place]? = some e) :
    ∀ node ∈ e.node.subtree, ∃ d ∈ entries, d.node = node := by
  induction place using Nat.strong_induction_on generalizing e with
  | h place ih =>
      intro node member
      rcases (Node.mem_subtree_iff e.node node).mp member with rfl | ⟨child, inside, below⟩
      · exact ⟨e, List.mem_of_getElem? here, rfl⟩
      · obtain ⟨part, before, found⟩ := exists_of_mem_children (linked place e here) child inside
        obtain ⟨d, there, rfl⟩ := Option.map_eq_some_iff.mp found
        exact ih part before d there node below

/-- What the scores of some entries are. -/
structure ScoresTrees (m : Model) (entries : List (Entry α)) : Prop where
  sums : m.scores entries = .ok (entries.map fun e => m.treeScore e.node)
  low : ∀ e ∈ entries, (m.treeScore e.node).le .zero = true
  /-- The parts of a tree are scored as well, and none of them lower than the tree. -/
  parts : ∀ e ∈ entries, ∀ node ∈ e.node.subtree,
    (∃ d ∈ entries, d.node = node) ∧ (m.treeScore e.node).le (m.treeScore node) = true

theorem scores_trees_of_linked (m : Model) {entries : List (Entry α)}
    (linked : ∀ place e, entries[place]? = some e → Linked entries place e) :
    m.ScoresTrees entries where
  sums := m.scores_linked linked
  low e _ := m.tree_score_le_zero e.node
  parts e member node part := by
    obtain ⟨place, here⟩ := List.getElem?_of_mem member
    exact ⟨exists_of_mem_subtree linked place e here node part, m.tree_score_le_of_mem part⟩

def even : Model :=
  { weights := ⟨0, [], 10⟩ }

end Model

end Reckon

import Reckon.Proofs.Forest.Heights
import Reckon.Proofs.Scoring.TreeScore
import Reckon.Proofs.Text.Bytes

/-!
# The geometry of a forest

A node covers a range of its text that is not empty, and its children lie in that range side by
side. So what stands below different children stands apart: the leaves of a tree follow one another,
no node is met twice in it, and it has no more leaves than it covers characters. Byte positions grow
with places, so the bytes of two nodes lie to one another as their characters do.
-/

set_option autoImplicit false

namespace Reckon

variable {α : Type}

namespace Span

/-- Spans between two places, none of them empty, of which each ends before the next begins. -/
def Row : Int → List Span → Int → Prop
  | first, [], last => first ≤ last
  | first, s :: rest, last => first ≤ s.start ∧ s.start < s.stop ∧ Row s.stop rest last

variable {first middle last : Int} {spans others : List Span}

theorem Row.le (row : Row first spans last) : first ≤ last := by
  induction spans generalizing first with
  | nil => exact row
  | cons s rest ih =>
      have later := ih row.2.2
      have begins := row.1
      have nonempty := row.2.1
      omega

theorem Row.earlier {before : Int} (row : Row first spans last) (order : before ≤ first) :
    Row before spans last := by
  cases spans with
  | nil => exact Int.le_trans order row
  | cons s rest => exact ⟨Int.le_trans order row.1, row.2⟩

theorem Row.append (row : Row first spans middle) (next : Row middle others last) :
    Row first (spans ++ others) last := by
  induction spans generalizing first with
  | nil => exact next.earlier row
  | cons s rest ih => exact ⟨row.1, row.2.1, ih row.2.2⟩

theorem Row.within (row : Row first spans last) :
    ∀ s ∈ spans, first ≤ s.start ∧ s.start < s.stop ∧ s.stop ≤ last := by
  induction spans generalizing first with
  | nil => simp
  | cons s rest ih =>
      have begins := row.1
      have nonempty := row.2.1
      have ends := row.2.2.le
      intro t member
      cases List.mem_cons.mp member with
      | inl same =>
          subst same
          exact ⟨begins, nonempty, ends⟩
      | inr later =>
          have inside := ih row.2.2 t later
          omega

theorem Row.ordered (row : Row first spans last) :
    spans.Pairwise fun a b => a.stop ≤ b.start := by
  induction spans generalizing first with
  | nil => exact List.Pairwise.nil
  | cons s rest ih =>
      apply List.Pairwise.cons
      · intro t later
        exact (row.2.2.within t later).1
      · exact ih row.2.2

/-- Each span of a row takes up a place of its own. -/
theorem Row.length_le (row : Row first spans last) : first + spans.length ≤ last := by
  induction spans generalizing first with
  | nil =>
      have order : first ≤ last := row
      simpa using order
  | cons s rest ih =>
      have later := ih row.2.2
      have begins := row.1
      have nonempty := row.2.1
      rw [List.length_cons]
      omega

end Span

namespace Node

def leaves (node : Node α) : List (Node α) :=
  node.subtree.filter (·.children.isEmpty)

theorem subtrees_eq_flat_map (nodes : List (Node α)) : subtrees nodes = nodes.flatMap subtree := by
  induction nodes with
  | nil => rfl
  | cons node rest ih => rw [subtrees, ih, List.flatMap_cons]

theorem subtree_eq (node : Node α) : node.subtree = node :: node.children.flatMap subtree := by
  cases node with
  | mk rule chars bytes value children =>
      rw [subtree, subtrees_eq_flat_map]
      rfl

theorem leaves_of_childless {node : Node α} (none : node.children = []) : node.leaves = [node] := by
  rw [leaves, subtree_eq, none]
  simp [none]

theorem leaves_of_children {node : Node α} (some : node.children ≠ []) :
    node.leaves = node.children.flatMap leaves := by
  rw [leaves, subtree_eq, List.filter_cons_of_neg (by simpa using some), List.filter_flatMap]
  rfl

theorem row_flat_map {f : Node α → List (Node α)} {nodes : List (Node α)} {first last : Int}
    (row : Span.Row first (nodes.map chars) last)
    (below : ∀ node ∈ nodes, Span.Row node.chars.start ((f node).map chars) node.chars.stop) :
    Span.Row first ((nodes.flatMap f).map chars) last := by
  induction nodes generalizing first with
  | nil => exact row
  | cons node rest ih =>
      rw [List.flatMap_cons, List.map_append]
      apply Span.Row.append
      · exact (below node List.mem_cons_self).earlier row.1
      · exact ih row.2.2 fun other member => below other (List.mem_cons_of_mem _ member)

end Node

namespace Forest

variable {rs : RuleSet α} {text : Array Char} {items : List (Item α)} {pos start stop : Nat}
  {findings : List (Finding α)} {children : List (Node α)} {node other : Node α}

/-! Trees. -/

theorem laid_row (laid : Laid text items pos findings children stop)
    (covered : ∀ child ∈ children, ∃ first last, Covers text child first last) :
    Span.Row pos (children.map Node.chars) stop := by
  induction laid with
  | done pos => exact Int.le_refl _
  | @text p rest pos stop m findings children found later ih =>
      have gap := gap_end_range text pos
      have range := Pattern.match_at_range text p _ m found
      apply (ih covered).earlier
      split <;> omega
  | @value test rest pos stop child findings children begins passed later ih =>
      obtain ⟨⟨first, last, covers⟩, others⟩ := List.forall_mem_cons.mp covered
      have gap := gap_end_range text pos
      have nonempty := covers.nonempty
      have next := ih others
      rw [covers.chars] at begins next
      rw [List.map_cons, covers.chars]
      refine ⟨?_, by simpa using nonempty, next⟩
      simp only at begins ⊢
      omega

theorem spread_row (spread : Spread text items start findings children stop)
    (covered : ∀ child ∈ children, ∃ first last, Covers text child first last) :
    Span.Row start (children.map Node.chars) stop := by
  cases spread with
  | @text p rest _ _ m findings _ found begins later =>
      have range := Pattern.find_all_range text p m found
      apply (laid_row later covered).earlier
      omega
  | @value test rest _ _ child findings children begins passed later =>
      obtain ⟨⟨first, last, covers⟩, others⟩ := List.forall_mem_cons.mp covered
      have nonempty := covers.nonempty
      have next := laid_row later others
      rw [covers.chars] at begins next
      rw [List.map_cons, covers.chars]
      exact ⟨Int.le_of_eq begins.symm, by simpa using nonempty, next⟩

theorem derives_row (derives : Derives rs text node) :
    Span.Row node.chars.start (node.children.map Node.chars) node.chars.stop := by
  cases derives with
  | intro _ r member built parts =>
      obtain ⟨findings, ⟨start, stop, v, spread, -, -, shape⟩, -⟩ := built
      have chars : node.chars = ⟨start, stop⟩ := by
        rw [shape]
        rfl
      rw [chars]
      exact spread_row spread fun child inside => derives_covers (parts child inside)

theorem leaves_row (derives : Derives rs text node) :
    Span.Row node.chars.start (node.leaves.map Node.chars) node.chars.stop := by
  induction derives with
  | intro node r member built parts ih =>
      have derives : Derives rs text node := .intro node r member built parts
      by_cases childless : node.children = []
      · obtain ⟨start, stop, covers⟩ := derives_covers derives
        have nonempty := covers.nonempty
        rw [Node.leaves_of_childless childless, List.map_singleton, covers.chars]
        exact ⟨Int.le_refl _, by simpa using nonempty, Int.le_refl _⟩
      · rw [Node.leaves_of_children childless]
        exact Node.row_flat_map (derives_row derives) ih

theorem derives_subtree (derives : Derives rs text node) :
    ∀ d ∈ node.subtree, node.chars.start ≤ d.chars.start ∧ d.chars.start < d.chars.stop ∧
      d.chars.stop ≤ node.chars.stop ∧ d.height ≤ node.height := by
  induction derives with
  | intro node r member built parts ih =>
      have derives : Derives rs text node := .intro node r member built parts
      intro d below
      rcases (Node.mem_subtree_iff node d).mp below with rfl | ⟨child, inside, deeper⟩
      · obtain ⟨start, stop, covers⟩ := derives_covers derives
        have nonempty := covers.nonempty
        rw [covers.chars]
        simp only
        omega
      · have row := (derives_row derives).within child.chars (List.mem_map_of_mem inside)
        have part := ih child inside d deeper
        have lower := Node.child_height_lt node child inside
        omega

/-- No node stands twice in a derivation tree: what stands below a child is lower than the tree, and
apart from what stands below another child. -/
theorem derives_once (derives : Derives rs text node) : node.subtree.Nodup := by
  induction derives with
  | intro node r member built parts ih =>
      have derives : Derives rs text node := .intro node r member built parts
      rw [Node.subtree_eq]
      apply List.Nodup.cons
      · intro below
        obtain ⟨child, inside, deeper⟩ := List.mem_flatMap.mp below
        have low := (derives_subtree (parts child inside) node deeper).2.2.2
        have lower := Node.child_height_lt node child inside
        omega
      · apply List.nodup_flatMap.mpr
        refine ⟨ih, ?_⟩
        have ordered := List.pairwise_map.mp (derives_row derives).ordered
        refine ordered.imp_of_mem ?_
        intro a b left right order d belowA belowB
        have insideA := derives_subtree (parts a left) d belowA
        have insideB := derives_subtree (parts b right) d belowB
        omega

/-! Bytes. -/

/-- The bytes of two nodes overlap exactly if their characters do, and lie inside one another
exactly if the characters do. -/
theorem bytes_alike {first last : Nat} (covers : Covers text node start stop)
    (again : Covers text other first last) :
    node.bytes.overlaps other.bytes = node.chars.overlaps other.chars ∧
      node.bytes.contains other.bytes = node.chars.contains other.chars := by
  have insideN := covers.inside
  have insideO := again.inside
  have nonemptyN := covers.nonempty
  have nonemptyO := again.nonempty
  have bytesN : node.bytes = ⟨Text.byteOffset text start, Text.byteOffset text stop⟩ :=
    covers.bytes
  have bytesO : other.bytes = ⟨Text.byteOffset text first, Text.byteOffset text last⟩ :=
    again.bytes
  have startLast := Text.byte_offset_le_iff text insideO (show start ≤ text.size by omega)
  have firstStop := Text.byte_offset_le_iff text insideN (show first ≤ text.size by omega)
  have startFirst := Text.byte_offset_le_iff text (show start ≤ text.size by omega)
    (show first ≤ text.size by omega)
  have lastStop := Text.byte_offset_le_iff text insideO insideN
  rw [bytesN, bytesO, covers.chars, again.chars]
  constructor
  · rw [Bool.eq_iff_iff]
    simp only [Span.overlaps, Bool.and_eq_true, decide_eq_true_eq]
    omega
  · rw [Bool.eq_iff_iff]
    simp only [Span.contains, Bool.and_eq_true, decide_eq_true_eq]
    omega

theorem bytes_decode (covers : Covers text node start stop) :
    (text.toList.utf8Encode.extract node.bytes.start.toNat node.bytes.stop.toNat).utf8Decode? =
      some (text.extract node.chars.start.toNat node.chars.stop.toNat) := by
  have bytes : node.bytes = ⟨Text.byteOffset text start, Text.byteOffset text stop⟩ :=
    covers.bytes
  have image := Text.utf8_encode_slice text covers.nonempty.le covers.inside
  rw [bytes, covers.chars]
  simp only [Int.toNat_natCast]
  rw [← image, List.utf8Decode?_utf8Encode, Text.slice, Array.toArray_toList]

/-! Forests. -/

/-- Where a node of a forest lies, and all that is in its tree. -/
structure Sited (text : Array Char) (node : Node α) : Prop where
  inside : 0 ≤ node.chars.start ∧ node.chars.start < node.chars.stop ∧
    node.chars.stop ≤ text.size
  holds : ∀ child ∈ node.children, node.chars.contains child.chars = true
  ordered : node.children.Pairwise fun a b => a.chars.stop ≤ b.chars.start
  apart : node.leaves.Pairwise fun a b => a.chars.overlaps b.chars = false
  few : (node.leaves.length : Int) ≤ node.chars.stop - node.chars.start
  once : node.subtree.Nodup
  decodes :
    (text.toList.utf8Encode.extract node.bytes.start.toNat node.bytes.stop.toNat).utf8Decode? =
      some (text.extract node.chars.start.toNat node.chars.stop.toNat)

theorem derives_sited (derives : Derives rs text node) : Sited text node := by
  obtain ⟨start, stop, covers⟩ := derives_covers derives
  have row := derives_row derives
  have leaves := leaves_row derives
  constructor
  case inside =>
    have nonempty := covers.nonempty
    have within := covers.inside
    rw [covers.chars]
    simp only
    omega
  case holds =>
    intro child member
    have place := row.within child.chars (List.mem_map_of_mem member)
    simp only [Span.contains, Bool.and_eq_true, decide_eq_true_eq]
    exact ⟨place.1, place.2.2⟩
  case ordered => exact List.pairwise_map.mp row.ordered
  case apart =>
    apply (List.pairwise_map.mp leaves.ordered).imp
    intro a b order
    simp only [Span.overlaps, Bool.and_eq_false_iff, decide_eq_false_iff_not]
    omega
  case few =>
    have room := leaves.length_le
    rw [List.length_map] at room
    omega
  case once => exact derives_once derives
  case decodes => exact bytes_decode covers

end Forest

namespace RuleSet

open Forest Sequencing

/-- Every node of a forest is sited in its text: it covers something, its children lie in it side by
side, its leaves apart, and its bytes are the form of its characters. Two nodes overlap, or one
holds the other, in bytes exactly if they do in characters. -/
theorem apply_sited (rs : RuleSet α) (text : Array Char) (entries : List (Entry α))
    (notices : List Notice) (ran : rs.apply text = .ok (entries, notices)) :
    (∀ e ∈ entries, Sited text e.node) ∧ ∀ d ∈ entries, ∀ e ∈ entries,
      d.node.bytes.overlaps e.node.bytes = d.node.chars.overlaps e.node.chars ∧
        d.node.bytes.contains e.node.bytes = d.node.chars.contains e.node.chars := by
  have derived := apply_sound ran
  constructor
  · intro e member
    exact derives_sited (derived e member)
  · intro d left e right
    obtain ⟨start, stop, covers⟩ := derives_covers (derived d left)
    obtain ⟨first, last, again⟩ := derives_covers (derived e right)
    exact bytes_alike covers again

/-- The long s takes two bytes, so bytes and characters part ways after it. -/
theorem long_s_sited : ∃ entries notices,
    letterRuns.apply #['ſ', ',', 'b'] = .ok (entries, notices) ∧
      entries.map (fun e => (e.node.chars, e.node.bytes)) =
        [(⟨0, 1⟩, ⟨0, 2⟩), (⟨2, 3⟩, ⟨3, 4⟩), (⟨0, 3⟩, ⟨0, 4⟩)] ∧
      (∀ e ∈ entries, Sited #['ſ', ',', 'b'] e.node) ∧ ∀ d ∈ entries, ∀ e ∈ entries,
        d.node.bytes.overlaps e.node.bytes = d.node.chars.overlaps e.node.chars ∧
          d.node.bytes.contains e.node.bytes = d.node.chars.contains e.node.chars := by
  have spans : (letterRuns.apply #['ſ', ',', 'b']).toOption.map
      (fun found => found.1.map fun e => (e.node.chars, e.node.bytes)) =
        some [(⟨0, 1⟩, ⟨0, 2⟩), (⟨2, 3⟩, ⟨3, 4⟩), (⟨0, 3⟩, ⟨0, 4⟩)] := by
    cbv
  obtain ⟨⟨entries, notices⟩, ran, placed⟩ := exists_ok_of_map spans
  exact ⟨entries, notices, ran, placed, apply_sited letterRuns _ entries notices ran⟩

end RuleSet

end Reckon

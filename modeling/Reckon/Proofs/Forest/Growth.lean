import Reckon.Proofs.Forest.Round
import Mathlib.Data.List.Nodup

/-!
# What the forest holds after each round

After `k` rounds the forest holds the derivation trees of height at most `k`, each once: `Grown` is
the invariant, and one round takes it from `k` to `k + 1`. The nodes of the last round are the trees
of height `k`, and each key seen is that of an entry.
-/

set_option autoImplicit false

namespace Reckon.Forest

open Sequencing

variable {α : Type}

/-- The parts of an entry are the places of its children, all of them before `place`. -/
def Linked (entries : List (Entry α)) (place : Nat) (e : Entry α) : Prop :=
  List.Forall₂ (fun part child => part < place ∧ (entries[part]?).map (·.node) = some child)
    e.parts e.node.children

/-- Entries that hold the derivation trees of height at most `k`, each once, in the order of their
height and children before parents. -/
structure Exhausts (rs : RuleSet α) (text : Array Char) (k : Nat) (entries : List (Entry α)) :
    Prop where
  exact : ∀ node, node ∈ entries.map (·.node) ↔ Derives rs text node ∧ node.height ≤ k
  once : (entries.map (·.node)).Nodup
  ordered : (entries.map (·.node.height)).Pairwise (· ≤ ·)
  linked : ∀ place e, entries[place]? = some e → Linked entries place e

/-- The state of a forest after `k` rounds. -/
structure Grown (rs : RuleSet α) (text : Array Char) (k : Nat) (g : Growth α) : Prop where
  exhausts : Exhausts rs text k g.entries
  newest : ∀ place e, g.entries[place]? = some e → (g.oldCount ≤ place ↔ e.node.height = k)
  seen : ∀ key, g.seen.contains key = true ↔ ∃ e ∈ g.entries, keyOf e = key

/-! Seats. -/

theorem mem_seats_of (entries : List (Entry α)) (oldCount : Nat) (seat : Seat α) :
    seat ∈ seatsOf entries oldCount ↔ ∃ e, entries[seat.place]? = some e ∧ e.node = seat.node ∧
      seat.isNew = decide (oldCount ≤ seat.place) := by
  unfold seatsOf
  rw [List.mem_map]
  constructor
  · rintro ⟨⟨e, place⟩, member, same⟩
    have here := List.mem_zipIdx_iff_getElem?.mp member
    subst same
    exact ⟨e, here, rfl, rfl⟩
  · rintro ⟨e, here, node, new⟩
    refine ⟨(e, seat.place), List.mem_zipIdx_iff_getElem?.mpr here, ?_⟩
    cases seat
    simp_all

theorem group_by_start_size (size : Nat) (seats : List (Seat α)) :
    (groupByStart size seats).size = size + 1 := by
  unfold groupByStart
  induction seats with
  | nil => simp
  | cons seat seats ih => simpa using ih

theorem mem_group_by_start (size : Nat) (seats : List (Seat α))
    (within : ∀ seat ∈ seats, seat.node.chars.start.toNat ≤ size) (pos : Nat) (seat : Seat α) :
    seat ∈ (groupByStart size seats).getD pos [] ↔
      seat ∈ seats ∧ seat.node.chars.start.toNat = pos := by
  induction seats with
  | nil =>
      simp [groupByStart, Array.getElem?_replicate]
      split <;> simp
  | cons head rest ih =>
      have inRest := ih fun other member => within other (by simp [member])
      have headWithin := within head (by simp)
      have unfolded : groupByStart size (head :: rest) =
          (groupByStart size rest).modify head.node.chars.start.toNat (head :: ·) := rfl
      have large := group_by_start_size size rest
      rw [unfolded, Array.getD_eq_getD_getElem?, Array.getElem?_modify]
      rw [Array.getD_eq_getD_getElem?] at inRest
      by_cases here : head.node.chars.start.toNat = pos
      · have inside : pos < (groupByStart size rest).size := by omega
        rw [if_pos here, Array.getElem?_eq_getElem inside] at *
        simp only [Option.map_some, Option.getD_some, List.mem_cons] at *
        rw [inRest]
        constructor
        · rintro (same | later)
          · exact ⟨Or.inl same, same ▸ here⟩
          · exact ⟨Or.inr later.1, later.2⟩
        · rintro ⟨same | later, begins⟩
          · exact Or.inl same
          · exact Or.inr ⟨later, begins⟩
      · rw [if_neg here, inRest, List.mem_cons]
        constructor
        · rintro ⟨later, begins⟩
          exact ⟨Or.inr later, begins⟩
        · rintro ⟨same | later, begins⟩
          · exact absurd (same ▸ begins) here
          · exact ⟨later, begins⟩

/-- Entries that are derivation trees fill a stage in which seats are filed by start. -/
theorem stage_of_filed {rs : RuleSet α} {text : Array Char} {g : Growth α} (firstRound : Bool)
    (derived : ∀ e ∈ g.entries, Derives rs text e.node) :
    (stageOf text (Text.byteOffsets text) firstRound g).Filed text := by
  have covered : ∀ seat ∈ seatsOf g.entries g.oldCount,
      ∃ start stop, Covers text seat.node start stop := by
    intro seat member
    obtain ⟨e, here, node, -⟩ := (mem_seats_of _ _ _).mp member
    rw [← node]
    exact derives_covers (derived e (List.mem_of_getElem? here))
  have filed := mem_group_by_start text.size (seatsOf g.entries g.oldCount) (by
    intro seat member
    obtain ⟨start, stop, covers⟩ := covered seat member
    have nonempty := covers.nonempty
    have inside := covers.inside
    rw [covers.chars]
    simp only [Int.toNat_natCast]
    omega)
  refine ⟨rfl, rfl, ?_, ?_⟩
  · intro pos seat
    refine (filed pos seat).trans (and_congr_right fun member => ?_)
    obtain ⟨start, stop, covers⟩ := covered seat member
    rw [covers.chars]
    simp only [Int.toNat_natCast]
    omega
  · intro seat member
    obtain ⟨start, stop, covers⟩ := covered seat member
    rw [covers.chars]
    simp

/-! Keys. -/

/-- What is kept of some entries once keys have been seen, and the keys seen afterwards. -/
structure Kept (seen : Std.HashSet Key) (es kept : List (Entry α)) (after : Std.HashSet Key) :
    Prop where
  sublist : kept.Sublist es
  earliest : ∀ e ∈ kept, Earliest e es
  accounted : ∀ e ∈ es, seen.contains (keyOf e) = true ∨ ∃ other ∈ kept, keyOf other = keyOf e
  keys : (kept.map keyOf).Nodup
  unseen : ∀ e ∈ kept, seen.contains (keyOf e) = false
  seenAfter : ∀ key, after.contains key = true ↔
    seen.contains key = true ∨ ∃ e ∈ kept, keyOf e = key

theorem Kept.skip {seen after : Std.HashSet Key} {rest kept : List (Entry α)} {e : Entry α}
    (later : Kept seen rest kept after) (old : seen.contains (keyOf e) = true) :
    Kept seen (e :: rest) kept after := by
  refine ⟨later.sublist.trans (List.sublist_cons_self e rest), fun other member => ?_, ?_,
    later.keys, later.unseen, later.seenAfter⟩
  · have different : keyOf e ≠ keyOf other := by
      intro same
      rw [same, later.unseen other member] at old
      cases old
    rw [Earliest, List.find?_cons_of_neg (by simpa using different)]
    exact later.earliest other member
  · exact List.forall_mem_cons.mpr ⟨Or.inl old, later.accounted⟩

theorem Kept.take {seen after : Std.HashSet Key} {rest kept : List (Entry α)} {e : Entry α}
    (later : Kept (seen.insert (keyOf e)) rest kept after)
    (fresh : seen.contains (keyOf e) = false) : Kept seen (e :: rest) (e :: kept) after := by
  obtain ⟨sublist, earliest, accounted, keys, unseen, seenAfter⟩ := later
  simp only [Std.HashSet.contains_insert, Bool.or_eq_true, Bool.or_eq_false_iff, beq_iff_eq,
    beq_eq_false_iff_ne] at accounted unseen seenAfter
  refine ⟨sublist.cons_cons e, ?_, ?_, ?_, ?_, ?_⟩
  · refine List.forall_mem_cons.mpr ⟨List.find?_cons_of_pos (by simp), ?_⟩
    intro other member
    rw [Earliest, List.find?_cons_of_neg (by simpa using (unseen other member).1)]
    exact earliest other member
  · refine List.forall_mem_cons.mpr ⟨Or.inr ⟨e, by simp⟩, ?_⟩
    intro other member
    rcases accounted other member with (here | before) | ⟨found, inside, same⟩
    · exact Or.inr ⟨e, by simp, here⟩
    · exact Or.inl before
    · exact Or.inr ⟨found, by simp [inside], same⟩
  · rw [List.map_cons, List.nodup_cons]
    refine ⟨?_, keys⟩
    intro again
    obtain ⟨found, inside, same⟩ := List.mem_map.mp again
    exact (unseen found inside).1 same.symm
  · exact List.forall_mem_cons.mpr ⟨fresh, fun found later => (unseen found later).2⟩
  · intro key
    rw [seenAfter key, List.exists_mem_cons_iff]
    constructor
    · rintro ((here | before) | found)
      · exact Or.inr (Or.inl here)
      · exact Or.inl before
      · exact Or.inr (Or.inr found)
    · rintro (before | here | found)
      · exact Or.inl (Or.inr before)
      · exact Or.inl (Or.inl here)
      · exact Or.inr found

theorem keep_unseen_kept (seen : Std.HashSet Key) (es : List (Entry α)) :
    Kept seen es (keepUnseen seen es).1 (keepUnseen seen es).2 := by
  induction es generalizing seen with
  | nil =>
      rw [keepUnseen]
      exact ⟨List.Sublist.refl [], by simp, by simp, by simp, by simp, by simp⟩
  | cons e rest ih =>
      rw [keepUnseen]
      by_cases old : seen.contains (keyOf e) = true
      · rw [if_pos old]
        exact (ih seen).skip old
      · rw [if_neg old]
        exact (ih (seen.insert (keyOf e))).take (by simpa using old)

theorem linked_weaken {entries more : List (Entry α)} {place other : Nat} {e : Entry α}
    (linked : Linked entries place e) (later : place ≤ other) :
    Linked (entries ++ more) other e := by
  unfold Linked at *
  apply linked.imp
  rintro part child ⟨before, here⟩
  refine ⟨by omega, ?_⟩
  obtain ⟨entry, found, same⟩ := Option.map_eq_some_iff.mp here
  have inside : part < entries.length := (List.getElem?_eq_some_iff.mp found).1
  rw [List.getElem?_append_left inside, found]
  exact congrArg some same

theorem linked_append {entries more : List (Entry α)}
    (linked : ∀ place e, entries[place]? = some e → Linked entries place e)
    (linkedMore : ∀ e ∈ more, Linked entries entries.length e) :
    ∀ place e, (entries ++ more)[place]? = some e → Linked (entries ++ more) place e := by
  intro place e here
  by_cases before : place < entries.length
  · rw [List.getElem?_append_left before] at here
    exact linked_weaken (linked place e here) (Nat.le_refl _)
  · rw [List.getElem?_append_right (by omega)] at here
    exact linked_weaken (linkedMore e (List.mem_of_getElem? here)) (by omega)

theorem linked_children {entries : List (Entry α)} {place other : Nat} {a b : Entry α}
    (left : Linked entries place a) (right : Linked entries other b) (same : a.parts = b.parts) :
    a.node.children = b.node.children := by
  unfold Linked at *
  rw [same] at left
  generalize b.parts = parts at left right
  generalize a.node.children = children at left
  generalize b.node.children = others at right
  induction left generalizing others with
  | nil => cases right; rfl
  | cons head tail ih =>
      cases right with
      | cons headAgain tailAgain =>
          have first := head.2
          rw [headAgain.2] at first
          rw [ih _ tailAgain, Option.some.inj first]

/-- Children determine their places, as no node occurs twice. -/
theorem linked_parts {entries : List (Entry α)} {place other : Nat} {a b : Entry α}
    (once : (entries.map (·.node)).Nodup) (left : Linked entries place a)
    (right : Linked entries other b) (same : a.node.children = b.node.children) :
    a.parts = b.parts := by
  unfold Linked at *
  rw [same] at left
  generalize b.node.children = children at left right
  generalize a.parts = parts at left
  generalize b.parts = others at right
  induction left generalizing others with
  | nil => cases right; rfl
  | @cons part child parts children head tail ih =>
      cases right with
      | @cons otherPart _ otherParts _ headAgain tailAgain =>
          have first : (entries.map (·.node))[part]? = some child := by
            rw [List.getElem?_map]; exact head.2
          have second : (entries.map (·.node))[otherPart]? = some child := by
            rw [List.getElem?_map]; exact headAgain.2
          have inside := (List.getElem?_eq_some_iff.mp first).1
          have places : part = otherPart :=
            (List.getElem?_inj inside once).mp (by rw [first, second])
          rw [ih _ tailAgain, places]

/-- Two linked entries with one key hold one node. -/
theorem node_eq_of_key_of_eq {rs : RuleSet α} {text : Array Char} (distinct : rs.ruleNames.Nodup)
    {entries : List (Entry α)} {place other : Nat} {a b : Entry α}
    (left : Linked entries place a) (right : Linked entries other b)
    (derivesLeft : Derives rs text a.node) (derivesRight : Derives rs text b.node)
    (same : keyOf a = keyOf b) : a.node = b.node := by
  simp only [keyOf, Prod.mk.injEq] at same
  obtain ⟨rule, start, stop, parts⟩ := same
  have children := linked_children left right parts
  apply derives_key_injective distinct derivesLeft derivesRight
  rw [Node.key_eq_key_iff, Span.ext_iff, children]
  exact ⟨rule, ⟨start, stop⟩, rfl⟩

/-! One round. -/

theorem exists_preimages {β γ : Type} (f : β → γ) (source : List β) (targets : List γ)
    (each : ∀ target ∈ targets, ∃ b ∈ source, f b = target) :
    ∃ found : List β, targets = found.map f ∧ ∀ b ∈ found, b ∈ source := by
  induction targets with
  | nil => exact ⟨[], rfl, by simp⟩
  | cons target targets ih =>
      obtain ⟨b, member, image⟩ := each target (by simp)
      obtain ⟨found, images, members⟩ := ih fun other belongs => each other (by simp [belongs])
      refine ⟨b :: found, by rw [List.map_cons, image, ← images], ?_⟩
      exact List.forall_mem_cons.mpr ⟨member, members⟩

section Round

variable {rs : RuleSet α} {text : Array Char} {k : Nat} {g : Growth α} {firstRound : Bool}
  {made : List (Entry α)}

theorem Grown.derived (grown : Grown rs text k g) :
    ∀ e ∈ g.entries, Derives rs text e.node ∧ e.node.height ≤ k :=
  fun e member => (grown.exhausts.exact e.node).mp (List.mem_map_of_mem member)

/-- What a round makes of derivation trees are, for the first entry of each key, derivation
trees. -/
theorem made_derives (derived : ∀ e ∈ g.entries, Derives rs text e.node)
    (ran : (stageOf text (Text.byteOffsets text) firstRound g).entries rs.rules = .ok made)
    {e : Entry α} (earliest : Earliest e made) : Derives rs text e.node := by
  have filed := stage_of_filed firstRound derived
  obtain ⟨-, seats, placed⟩ := (Stage.mem_entries _ text filed rs.rules made ran e).mp earliest.mem
  obtain ⟨r, belongs, built⟩ := Stage.exists_builds_of_earliest filed ran earliest
  refine .intro e.node r belongs built ?_
  intro child inside
  rw [placed.children] at inside
  obtain ⟨seat, belongsHere, same⟩ := List.mem_map.mp inside
  obtain ⟨entry, here, node, -⟩ := (mem_seats_of _ _ seat).mp (placed.seated seat belongsHere)
  rw [← same, ← node]
  exact derived entry (List.mem_of_getElem? here)

/-- What a round makes has its children in the forest. -/
theorem made_linked (derived : ∀ e ∈ g.entries, Derives rs text e.node)
    (ran : (stageOf text (Text.byteOffsets text) firstRound g).entries rs.rules = .ok made) :
    ∀ e ∈ made, Linked g.entries g.entries.length e := by
  have filed := stage_of_filed firstRound derived
  intro e member
  obtain ⟨-, seats, placed⟩ := (Stage.mem_entries _ text filed rs.rules made ran e).mp member
  unfold Linked
  rw [placed.children, placed.parts, List.forall₂_map_left_iff, List.forall₂_map_right_iff,
    List.forall₂_same]
  intro seat inside
  obtain ⟨entry, here, node, -⟩ := (mem_seats_of _ _ seat).mp (placed.seated seat inside)
  refine ⟨(List.getElem?_eq_some_iff.mp here).1, ?_⟩
  rw [here, Option.map_some, node]

/-- What a round makes is one level above the forest and linked into it. -/
theorem Grown.made_above (grown : Grown rs text k g) (first : firstRound = true ↔ k = 0)
    (ran : (stageOf text (Text.byteOffsets text) firstRound g).entries rs.rules = .ok made) :
    ∀ e ∈ made, e.node.height = k + 1 ∧ Linked g.entries g.entries.length e := by
  have derived := fun e member => (grown.derived e member).1
  have filed := stage_of_filed firstRound derived
  intro e member
  obtain ⟨-, seats, children, -, seated, due⟩ :=
    (Stage.mem_entries _ text filed rs.rules made ran e).mp member
  have placed : ∀ seat ∈ seats, ∃ entry, g.entries[seat.place]? = some entry ∧
      entry.node = seat.node ∧ (seat.isNew = true ↔ seat.node.height = k) := by
    intro seat inside
    obtain ⟨entry, here, node, new⟩ := (mem_seats_of _ _ seat).mp (seated seat inside)
    refine ⟨entry, here, node, ?_⟩
    rw [new, ← node, decide_eq_true_iff]
    exact grown.newest seat.place entry here
  have lower : ∀ child ∈ e.node.children, child.height ≤ k := by
    intro child inside
    rw [children] at inside
    obtain ⟨seat, belongsHere, same⟩ := List.mem_map.mp inside
    obtain ⟨entry, here, node, -⟩ := placed seat belongsHere
    rw [← same, ← node]
    exact (grown.derived entry (List.mem_of_getElem? here)).2
  refine ⟨?_, made_linked derived ran e member⟩
  rw [Node.height_eq_succ_iff e.node k lower]
  rcases due with isFirst | ⟨seat, inside, new⟩
  · exact Or.inl (first.mp isFirst)
  · obtain ⟨entry, -, -, top⟩ := placed seat inside
    refine Or.inr ⟨seat.node, ?_, top.mp new⟩
    rw [children]
    exact List.mem_map_of_mem inside

theorem Grown.kept_sound (grown : Grown rs text k g) (first : firstRound = true ↔ k = 0)
    (ran : (stageOf text (Text.byteOffsets text) firstRound g).entries rs.rules = .ok made)
    {kept : List (Entry α)} {seen : Std.HashSet Key} (saved : Kept g.seen made kept seen) :
    ∀ e ∈ kept, Derives rs text e.node ∧ e.node.height = k + 1 ∧
      Linked g.entries g.entries.length e := by
  intro e member
  refine ⟨?_, grown.made_above first ran e (saved.sublist.subset member)⟩
  exact made_derives (fun e member => (grown.derived e member).1) ran (saved.earliest e member)

/-- A round makes every derivation tree one level above the forest. -/
theorem Grown.made_complete (grown : Grown rs text k g) (first : firstRound = true ↔ k = 0)
    (ran : (stageOf text (Text.byteOffsets text) firstRound g).entries rs.rules = .ok made)
    (node : Node α) (derives : Derives rs text node) (top : node.height = k + 1) :
    ∃ e ∈ made, e.node = node := by
  have filed := stage_of_filed firstRound fun e member => (grown.derived e member).1
  have each : ∀ child ∈ node.children, ∃ seat ∈ seatsOf g.entries g.oldCount,
      seat.node = child := by
    intro child inside
    have below := Node.child_height_lt node child inside
    have present := (grown.exhausts.exact child).mpr
      ⟨derives_children derives child inside, by omega⟩
    obtain ⟨e, member, same⟩ := List.mem_map.mp present
    obtain ⟨place, here⟩ := List.getElem?_of_mem member
    exact ⟨⟨place, e.node, decide (g.oldCount ≤ place)⟩,
      (mem_seats_of _ _ _).mpr ⟨e, here, rfl, rfl⟩, same⟩
  obtain ⟨seats, children, seated⟩ := exists_preimages (fun seat : Seat α => seat.node) _ _ each
  cases derives with
  | intro _ r belongs built parts =>
      obtain ⟨findings, makes, -⟩ := built
      refine ⟨⟨node, seats.map (·.place)⟩, ?_, rfl⟩
      rw [Stage.mem_entries _ text filed rs.rules made ran]
      refine ⟨⟨r, belongs, findings, makes⟩, seats, children, rfl, seated, ?_⟩
      -- a tree this tall has a child from the last round, which makes it due
      have tops := (Node.height_eq_succ_iff node k (by
        intro child inside
        have below := Node.child_height_lt node child inside
        omega)).mp top
      rcases tops with zero | ⟨child, inside, high⟩
      · exact Or.inl (first.mpr zero)
      · right
        rw [children] at inside
        obtain ⟨seat, member, same⟩ := List.mem_map.mp inside
        obtain ⟨e, here, node, new⟩ := (mem_seats_of _ _ seat).mp (seated seat member)
        refine ⟨seat, member, ?_⟩
        rw [new, decide_eq_true_iff, grown.newest seat.place e here, node, same]
        exact high

end Round

end Reckon.Forest

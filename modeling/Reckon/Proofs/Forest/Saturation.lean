import Reckon.Proofs.Forest.Growth
import Mathlib.Data.List.Perm.Subperm
import Mathlib.Order.Bounds.Basic

/-!
# The forest is a bounded saturation

Whatever the bounds, the forest of a text consists of derivation trees. If the rules have names of
their own, it holds exactly the trees up to some height, and that height is the least one at which
growth has to end: the bound on rounds, no taller tree, or the bound on nodes. The notice tells
which of the three it was.
-/

set_option autoImplicit false

namespace Reckon

open Sequencing

variable {α : Type}

namespace Forest

/-- Growth has to end after `k` rounds: the rounds are spent, there is nothing taller, or the trees
so far are as many as allowed. -/
def Ends (rs : RuleSet α) (text : Array Char) (k : Nat) : Prop :=
  k = rs.maxRounds.toNat ∨ (∀ node, Derives rs text node → node.height ≠ k + 1) ∨
    1 ≤ k ∧ ∃ nodes : List (Node α), nodes.Nodup ∧
      (∀ node ∈ nodes, Derives rs text node ∧ node.height ≤ k) ∧ rs.maxNodes ≤ nodes.length

/-- The notices of a forest of height `k` name the bound that cut it short, if one did. -/
def Explains (rs : RuleSet α) (text : Array Char) (k : Nat) (entries : List (Entry α))
    (notices : List Notice) : Prop :=
  notices = [] ∧ (∀ node, Derives rs text node → node.height ≠ k + 1) ∨
    notices = [.nodeCap rs.maxNodes] ∧ 1 ≤ k ∧ rs.maxNodes ≤ entries.length ∨
    notices = [.noFixpoint rs.maxRounds] ∧ k = rs.maxRounds.toNat

theorem Explains.ends {rs : RuleSet α} {text : Array Char} {k : Nat} {entries : List (Entry α)}
    {notices : List Notice} (exhausts : Exhausts rs text k entries)
    (explains : Explains rs text k entries notices) : Ends rs text k := by
  rcases explains with ⟨-, saturated⟩ | ⟨-, positive, full⟩ | ⟨-, spent⟩
  · exact Or.inr (Or.inl saturated)
  · refine Or.inr (Or.inr ⟨positive, entries.map (·.node), exhausts.once, ?_, ?_⟩)
    · intro node member
      exact (exhausts.exact node).mp member
    · rw [List.length_map]
      exact full
  · exact Or.inl spent

/-- No list of different trees of height at most `k` is longer than the forest that holds them. -/
theorem Exhausts.length_le {rs : RuleSet α} {text : Array Char} {k : Nat}
    {entries : List (Entry α)} (exhausts : Exhausts rs text k entries) (nodes : List (Node α))
    (different : nodes.Nodup) (low : ∀ node ∈ nodes, Derives rs text node ∧ node.height ≤ k) :
    nodes.length ≤ entries.length := by
  have inside : nodes ⊆ entries.map (·.node) := fun node member =>
    (exhausts.exact node).mpr (low node member)
  have shorter := (List.subperm_of_subset different inside).length_le
  rwa [List.length_map] at shorter

/-- Of what a rule makes of the trees of a forest, up to the height of the forest, the forest holds
one node of each key. -/
theorem Exhausts.closed {rs : RuleSet α} {text : Array Char} {k : Nat} {entries : List (Entry α)}
    (exhausts : Exhausts rs text k entries) {r : Rule α} (member : r ∈ rs.rules)
    {findings : List (Finding α)} {node : Node α} (makes : Makes text r findings node)
    (parts : ∀ child ∈ node.children, child ∈ entries.map (·.node)) (low : node.height ≤ k) :
    node.key ∈ entries.map (·.node.key) := by
  obtain ⟨built, builds, rule, chars, children⟩ := makes.exists_builds
  have derives : Derives rs text built := by
    refine .intro built r member builds fun child inside => ?_
    exact ((exhausts.exact child).mp (parts child (children ▸ inside))).1
  have bound : built.height ≤ k := by
    rw [Node.height_eq, children, ← Node.height_eq]
    exact low
  obtain ⟨e, inside, same⟩ := List.mem_map.mp ((exhausts.exact built).mpr ⟨derives, bound⟩)
  have key : e.node.key = node.key := by
    rw [same, Node.key_eq_key_iff, children]
    exact ⟨rule, chars, rfl⟩
  exact List.mem_map.mpr ⟨e, inside, key⟩

section Round

variable {rs : RuleSet α} {text : Array Char} {k : Nat} {g : Growth α} {firstRound : Bool}
  {made kept : List (Entry α)} {seen : Std.HashSet Key}

theorem Grown.start (rs : RuleSet α) (text : Array Char) : Grown rs text 0 {} := by
  refine ⟨⟨?_, by simp, by simp, by simp⟩, by simp, by simp⟩
  intro node
  have tall := node.height_pos
  constructor
  · intro member
    simp at member
  · rintro ⟨-, low⟩
    omega

theorem Grown.kept_complete (distinct : rs.ruleNames.Nodup) (grown : Grown rs text k g)
    (first : firstRound = true ↔ k = 0)
    (ran : (stageOf text (Text.byteOffsets text) firstRound g).entries rs.rules = .ok made)
    (saved : Kept g.seen made kept seen) (node : Node α) (derives : Derives rs text node)
    (top : node.height = k + 1) : ∃ e ∈ kept, e.node = node := by
  have sound := grown.kept_sound first ran saved
  obtain ⟨e, member, same⟩ := grown.made_complete first ran node derives top
  obtain ⟨-, linked⟩ := grown.made_above first ran e member
  have derivesHere : Derives rs text e.node := same ▸ derives
  rcases saved.accounted e member with before | ⟨other, inside, key⟩
  · -- an older entry with this key would hold the same node, but all of them are lower
    obtain ⟨other, inside, key⟩ := (grown.seen _).mp before
    obtain ⟨place, here⟩ := List.getElem?_of_mem inside
    have equal := node_eq_of_key_of_eq distinct (grown.exhausts.linked place other here) linked
      (grown.derived other inside).1 derivesHere key
    have below := (grown.derived other inside).2
    rw [equal, same] at below
    omega
  · obtain ⟨derivesOther, -, linkedOther⟩ := sound other inside
    have equal := node_eq_of_key_of_eq distinct linkedOther linked derivesOther derivesHere key
    exact ⟨other, inside, equal.trans same⟩

theorem nodes_nodup {entries more : List (Entry α)} (once : (entries.map (·.node)).Nodup)
    (linked : ∀ e ∈ more, Linked entries entries.length e) (keys : (more.map keyOf).Nodup) :
    (more.map (·.node)).Nodup := by
  have apart : more.Pairwise fun a b => keyOf a ≠ keyOf b := List.pairwise_map.mp keys
  refine List.pairwise_map.mpr (apart.imp_of_mem ?_)
  intro a b left right different same
  apply different
  have parts := linked_parts once (linked a left) (linked b right) (by rw [same])
  rw [keyOf, keyOf, same, parts]

/-- The trees of height at most `k` and those one level above them. -/
theorem Exhausts.extend {entries more : List (Entry α)} (exhausts : Exhausts rs text k entries)
    (sound : ∀ e ∈ more, Derives rs text e.node ∧ e.node.height = k + 1 ∧
      Linked entries entries.length e)
    (complete : ∀ node, Derives rs text node → node.height = k + 1 → ∃ e ∈ more, e.node = node)
    (keys : (more.map keyOf).Nodup) : Exhausts rs text (k + 1) (entries ++ more) := by
  have low : ∀ node ∈ entries.map (·.node), Derives rs text node ∧ node.height ≤ k :=
    fun node member => (exhausts.exact node).mp member
  have high : ∀ node ∈ more.map (·.node), Derives rs text node ∧ node.height = k + 1 := by
    intro node member
    obtain ⟨e, inside, same⟩ := List.mem_map.mp member
    rw [← same]
    exact ⟨(sound e inside).1, (sound e inside).2.1⟩
  constructor
  case exact =>
    intro node
    rw [List.map_append, List.mem_append]
    constructor
    · rintro (before | new)
      · obtain ⟨derives, bound⟩ := low node before
        exact ⟨derives, by omega⟩
      · obtain ⟨derives, top⟩ := high node new
        exact ⟨derives, by omega⟩
    · rintro ⟨derives, bound⟩
      by_cases top : node.height = k + 1
      · obtain ⟨e, member, same⟩ := complete node derives top
        exact Or.inr (List.mem_map.mpr ⟨e, member, same⟩)
      · exact Or.inl ((exhausts.exact node).mpr ⟨derives, by omega⟩)
  case once =>
    rw [List.map_append, List.nodup_append]
    refine ⟨exhausts.once,
      nodes_nodup exhausts.once (fun e member => (sound e member).2.2) keys, ?_⟩
    intro node before other new same
    have bound := (low node before).2
    have top := (high other new).2
    rw [same] at bound
    omega
  case ordered =>
    rw [List.map_append, List.pairwise_append]
    refine ⟨exhausts.ordered, ?_, ?_⟩
    · refine List.pairwise_map.mpr (List.pairwise_of_forall_mem_list ?_)
      intro a left b right
      rw [(sound a left).2.1, (sound b right).2.1]
    · intro below before above new
      obtain ⟨a, left, heightA⟩ := List.mem_map.mp before
      obtain ⟨b, right, heightB⟩ := List.mem_map.mp new
      have bound := (low a.node (List.mem_map_of_mem left)).2
      have top := (sound b right).2.1
      omega
  case linked => exact linked_append exhausts.linked fun e member => (sound e member).2.2

/-- One round takes the forest of height `k` to that of height `k + 1`. -/
theorem Grown.extend (distinct : rs.ruleNames.Nodup) (grown : Grown rs text k g)
    (first : firstRound = true ↔ k = 0)
    (ran : (stageOf text (Text.byteOffsets text) firstRound g).entries rs.rules = .ok made)
    (saved : Kept g.seen made kept seen) (notices : List Notice) :
    Grown rs text (k + 1) ⟨g.entries ++ kept, g.entries.length, seen, notices⟩ := by
  have keptSound := grown.kept_sound first ran saved
  constructor
  case exhausts =>
    exact grown.exhausts.extend keptSound (grown.kept_complete distinct first ran saved) saved.keys
  case newest =>
    intro place e here
    by_cases before : place < g.entries.length
    · rw [List.getElem?_append_left before] at here
      have low := (grown.derived e (List.mem_of_getElem? here)).2
      simp only
      omega
    · rw [List.getElem?_append_right (by omega)] at here
      have top := (keptSound e (List.mem_of_getElem? here)).2.1
      simp only
      omega
  case seen =>
    intro key
    rw [saved.seenAfter key, grown.seen key]
    simp only [List.mem_append, or_and_right, exists_or]

theorem Grown.saturated (distinct : rs.ruleNames.Nodup) (grown : Grown rs text k g)
    (first : firstRound = true ↔ k = 0)
    (ran : (stageOf text (Text.byteOffsets text) firstRound g).entries rs.rules = .ok made)
    (none : (keepUnseen g.seen made).1 = []) :
    ∀ node, Derives rs text node → node.height ≠ k + 1 := by
  intro node derives top
  have next := grown.extend distinct first ran (keep_unseen_kept g.seen made) []
  rw [none, List.append_nil] at next
  have inside := (next.exhausts.exact node).mpr ⟨derives, by omega⟩
  have low := ((grown.exhausts.exact node).mp inside).2
  omega

theorem Grown.exists_taller (grown : Grown rs text k g) (first : firstRound = true ↔ k = 0)
    (ran : (stageOf text (Text.byteOffsets text) firstRound g).entries rs.rules = .ok made)
    (some : (keepUnseen g.seen made).1 ≠ []) : ∃ node, Derives rs text node ∧
      node.height = k + 1 := by
  obtain ⟨e, member⟩ := List.exists_mem_of_ne_nil _ some
  obtain ⟨derives, top, -⟩ := grown.kept_sound first ran (keep_unseen_kept g.seen made) e member
  exact ⟨e.node, derives, top⟩

end Round

theorem grow_exact {rs : RuleSet α} {text : Array Char} (distinct : rs.ruleNames.Nodup)
    (fuel k : Nat) (g final : Growth α) (firstRound : Bool) (grown : Grown rs text k g)
    (first : firstRound = true ↔ k = 0) (budget : k + fuel = rs.maxRounds.toNat)
    (before : ∀ j < k, ¬Ends rs text j) (uncapped : k = 0 ∨ (g.entries.length : Int) < rs.maxNodes)
    (plain : g.notices = [])
    (ran : grow rs text (Text.byteOffsets text) fuel firstRound g = .ok final) :
    ∃ height, Exhausts rs text height final.entries ∧ (∀ j < height, ¬Ends rs text j) ∧
      Explains rs text height final.entries final.notices := by
  -- on the rounds left: `budget` ties them to the height, `before` keeps the height least
  induction fuel generalizing k g firstRound with
  | zero =>
      cases ran
      exact ⟨k, grown.exhausts, before, Or.inr (Or.inr ⟨rfl, by omega⟩)⟩
  | succ fuel ih =>
      rw [grow] at ran
      obtain ⟨made, stage, branch⟩ := (bind_ok_iff _ _ _).mp ran
      have next := grown.extend distinct first stage (keep_unseen_kept g.seen made)
      simp only [List.isEmpty_iff] at branch
      by_cases none : (keepUnseen g.seen made).1 = []
      · rw [if_pos none] at branch
        cases branch
        exact ⟨k, grown.exhausts, before,
          Or.inl ⟨plain, grown.saturated distinct first stage none⟩⟩
      · rw [if_neg none] at branch
        -- the round kept something, so none of the three ends was reached before it
        have here : ¬Ends rs text k := by
          rintro (spent | saturated | ⟨positive, nodes, different, low, many⟩)
          · omega
          · obtain ⟨node, derives, top⟩ := grown.exists_taller first stage none
            exact saturated node derives top
          · have fewer := grown.exhausts.length_le nodes different low
            omega
        have earlier : ∀ j < k + 1, ¬Ends rs text j := by
          intro j small
          by_cases same : j = k
          · rw [same]
            exact here
          · exact before j (by omega)
        by_cases full : rs.maxNodes ≤ ((g.entries ++ (keepUnseen g.seen made).1).length : Int)
        · rw [if_pos full] at branch
          cases branch
          exact ⟨k + 1, (next []).exhausts, earlier, Or.inr (Or.inl ⟨rfl, by omega, full⟩)⟩
        · rw [if_neg full] at branch
          apply ih (k + 1) _ false (next []) (by simp) (by omega) earlier (Or.inr _) rfl branch
          simp only
          omega

/-- Entries that are derivation trees and stand after their children. -/
structure Rooted (rs : RuleSet α) (text : Array Char) (entries : List (Entry α)) : Prop where
  derived : ∀ e ∈ entries, Derives rs text e.node
  linked : ∀ place e, entries[place]? = some e → Linked entries place e

theorem Rooted.nil (rs : RuleSet α) (text : Array Char) : Rooted rs text [] :=
  ⟨by simp, by simp⟩

/-- What a round keeps of what it made stands on the entries before. -/
theorem Rooted.extend {rs : RuleSet α} {text : Array Char} {g : Growth α} {firstRound : Bool}
    {made kept : List (Entry α)} {seen after : Std.HashSet Key} (rooted : Rooted rs text g.entries)
    (ran : (stageOf text (Text.byteOffsets text) firstRound g).entries rs.rules = .ok made)
    (saved : Kept seen made kept after) : Rooted rs text (g.entries ++ kept) := by
  constructor
  case derived =>
    intro e member
    rcases List.mem_append.mp member with old | new
    · exact rooted.derived e old
    · exact made_derives rooted.derived ran (saved.earliest e new)
  case linked =>
    exact linked_append rooted.linked fun e member =>
      made_linked rooted.derived ran e (saved.sublist.subset member)

/-- Whatever the names of the rules and wherever growth ends, it only adds derivation trees, after
their children. -/
theorem grow_rooted {rs : RuleSet α} {text : Array Char} (fuel : Nat) (g final : Growth α)
    (firstRound : Bool) (rooted : Rooted rs text g.entries)
    (ran : grow rs text (Text.byteOffsets text) fuel firstRound g = .ok final) :
    Rooted rs text final.entries := by
  induction fuel generalizing g firstRound with
  | zero =>
      cases ran
      exact rooted
  | succ fuel ih =>
      rw [grow] at ran
      obtain ⟨made, stage, branch⟩ := (bind_ok_iff _ _ _).mp ran
      have extended := rooted.extend stage (keep_unseen_kept g.seen made)
      simp only [List.isEmpty_iff] at branch
      split at branch
      · cases branch
        exact rooted
      · split at branch
        · cases branch
          exact extended
        · exact ih _ _ extended branch

theorem grow_notices {rs : RuleSet α} {text : Array Char} (fuel : Nat) (g final : Growth α)
    (firstRound : Bool) (plain : g.notices = [])
    (ran : grow rs text (Text.byteOffsets text) fuel firstRound g = .ok final) :
    ∀ notice ∈ final.notices,
      notice = .nodeCap rs.maxNodes ∨ notice = .noFixpoint rs.maxRounds := by
  induction fuel generalizing g firstRound with
  | zero =>
      cases ran
      simp
  | succ fuel ih =>
      rw [grow] at ran
      obtain ⟨made, -, branch⟩ := (bind_ok_iff _ _ _).mp ran
      simp only at branch
      split at branch
      · cases branch
        simp [plain]
      · split at branch
        · cases branch
          simp
        · exact ih _ _ rfl branch

theorem grow_returns {rs : RuleSet α} {text : Array Char} (unfailing : Unfailing rs text)
    (fuel : Nat) (g : Growth α) (firstRound : Bool) (rooted : Rooted rs text g.entries) :
    ∃ final, grow rs text (Text.byteOffsets text) fuel firstRound g = .ok final := by
  induction fuel generalizing g firstRound with
  | zero => exact ⟨_, rfl⟩
  | succ fuel ih =>
      have filed := stage_of_filed firstRound rooted.derived
      obtain ⟨made, stage⟩ := Stage.entries_returns _ rs text filed unfailing (by
        intro seat member
        obtain ⟨e, here, node, -⟩ := (mem_seats_of _ _ seat).mp member
        rw [← node]
        exact rooted.derived e (List.mem_of_getElem? here))
      rw [grow, stage, ok_bind]
      simp only
      split
      · exact ⟨_, rfl⟩
      · split
        · exact ⟨_, rfl⟩
        · exact ih _ _ (rooted.extend stage (keep_unseen_kept g.seen made))

end Forest

namespace RuleSet

open Forest

variable {rs : RuleSet α} {text : Array Char} {entries : List (Entry α)} {notices : List Notice}

theorem checked_eq_ok_iff (rs : RuleSet α) : rs.checked = .ok rs ↔ rs.ruleNames.Nodup := by
  have repeated : repeatedNames rs.ruleNames = [] ↔ rs.ruleNames.Nodup := by
    rw [List.eq_nil_iff_forall_not_mem, List.nodup_iff_count_le_one]
    apply forall_congr'
    intro name
    rw [repeatedNames, List.mem_mergeSort, List.mem_eraseDups, List.mem_filter,
      decide_eq_true_iff, ← List.count_pos_iff]
    omega
  rw [← repeated, checked]
  split
  · rename_i none
    simp [none]
  · rename_i some
    simpa using some

/-- Every entry of a forest is a derivation tree and stands after its children. -/
theorem apply_rooted (ran : rs.apply text = .ok (entries, notices)) : Rooted rs text entries := by
  rw [apply] at ran
  split at ran
  · cases ran
    exact .nil rs text
  · obtain ⟨g, grown, same⟩ := (bind_ok_iff _ _ _).mp ran
    cases same
    exact grow_rooted _ _ _ _ (.nil rs text) grown

theorem apply_sound (ran : rs.apply text = .ok (entries, notices)) :
    ∀ e ∈ entries, Derives rs text e.node :=
  (apply_rooted ran).derived

theorem apply_notices (ran : rs.apply text = .ok (entries, notices)) :
    ∀ notice ∈ notices, notice = .nodeCap rs.maxNodes ∨ notice = .noFixpoint rs.maxRounds := by
  rw [apply] at ran
  split at ran
  · cases ran
    simp
  · obtain ⟨g, grown, same⟩ := (bind_ok_iff _ _ _).mp ran
    cases same
    exact grow_notices _ _ _ _ rfl grown

theorem apply_returns (unfailing : Unfailing rs text) : ∃ forest, rs.apply text = .ok forest := by
  rw [apply]
  split
  · exact ⟨_, rfl⟩
  · obtain ⟨g, grown⟩ := grow_returns unfailing rs.maxRounds.toNat {} true (.nil rs text)
    rw [grown]
    exact ⟨_, rfl⟩

/-- The forest that the engine returns for a text. -/
theorem apply_exact (distinct : rs.ruleNames.Nodup)
    (ran : rs.apply text = .ok (entries, notices)) :
    ∃ k, Exhausts rs text k entries ∧ IsLeast {j | Ends rs text j} k ∧
      Explains rs text k entries notices := by
  have settled : ∃ k, Exhausts rs text k entries ∧ (∀ j < k, ¬Ends rs text j) ∧
      Explains rs text k entries notices := by
    rw [apply] at ran
    by_cases empty : text.isEmpty = true
    · rw [if_pos empty] at ran
      cases ran
      have noTree : ∀ node, ¬Derives rs text node := by
        intro node derives
        obtain ⟨start, stop, covers⟩ := derives_covers derives
        have nonempty := covers.nonempty
        have inside := covers.inside
        rw [Array.isEmpty_iff_size_eq_zero.mp empty] at inside
        omega
      exact ⟨0, (Grown.start rs text).exhausts, by simp,
        Or.inl ⟨rfl, fun node derives => absurd derives (noTree node)⟩⟩
    · rw [if_neg empty] at ran
      obtain ⟨g, grown, same⟩ := (bind_ok_iff _ _ _).mp ran
      cases same
      exact grow_exact distinct _ 0 {} g true (Grown.start rs text) (by simp) (by omega) (by simp)
        (Or.inl rfl) rfl grown
  obtain ⟨k, exhausts, before, explains⟩ := settled
  refine ⟨k, exhausts, ⟨explains.ends exhausts, ?_⟩, explains⟩
  intro j ends
  by_contra small
  exact before j (by omega) ends

theorem height_le_of_none {k : Nat} (none : ∀ node, Derives rs text node → node.height ≠ k + 1)
    {node : Node α} (derives : Derives rs text node) : node.height ≤ k := by
  induction derives with
  | intro node r member built parts ih =>
      have low := (Node.tallest_le_iff node.children k).mpr ih
      have height := node.height_eq
      have gap := none node (.intro node r member built parts)
      omega

/-- A forest that was not cut short holds all derivation trees. -/
theorem apply_complete (distinct : rs.ruleNames.Nodup) (ran : rs.apply text = .ok (entries, []))
    {node : Node α} (derives : Derives rs text node) : ∃ e ∈ entries, e.node = node := by
  obtain ⟨k, exhausts, -, explains⟩ := apply_exact distinct ran
  rcases explains with ⟨-, none⟩ | ⟨cut, -⟩ | ⟨cut, -⟩
  · exact List.mem_map.mp ((exhausts.exact node).mpr ⟨derives, height_le_of_none none derives⟩)
  · cases cut
  · cases cut

/-- No two entries of a forest have one key. -/
theorem keys_nodup {k : Nat} (distinct : rs.ruleNames.Nodup)
    (exhausts : Exhausts rs text k entries) : (entries.map (·.node.key)).Nodup := by
  have different : entries.Pairwise fun a b => a.node ≠ b.node :=
    List.pairwise_map.mp exhausts.once
  have derived : ∀ e ∈ entries, Derives rs text e.node := fun e member =>
    ((exhausts.exact e.node).mp (List.mem_map_of_mem member)).1
  refine List.pairwise_map.mpr (different.imp_of_mem ?_)
  intro a b left right apart same
  exact apart (derives_key_injective distinct (derived a left) (derived b right) same)

def letterRuns : RuleSet Nat where
  rules := [
    ⟨"letter", [.text (.one .anyLetter)], fun _ => .ok (some 1)⟩,
    ⟨"join", [.holding fun _ => true, .holding fun _ => true], fun
      | [.value left, .value right] => .ok (some (left + right))
      | _ => .ok none⟩]
  maxRounds := 2
  maxNodes := 5

theorem letter_runs_unfailing (text : Array Char) : Unfailing letterRuns text := by
  constructor
  · decide
  · intro r member test item node _
    simp only [letterRuns, List.mem_cons, List.not_mem_nil, or_false] at member
    rcases member with same | same
    · subst same
      simp at item
    · subst same
      simp only [Item.holding, List.mem_cons, Item.value.injEq, List.not_mem_nil, or_false,
        or_self] at item
      subst item
      exact ⟨true, rfl⟩
  · intro r member start findings children stop _ _
    simp only [letterRuns, List.mem_cons, List.not_mem_nil, or_false] at member
    rcases member with same | same
    · subst same
      exact ⟨some 1, rfl⟩
    · subst same
      simp only
      split
      · exact ⟨_, rfl⟩
      · exact ⟨_, rfl⟩

end RuleSet

end Reckon

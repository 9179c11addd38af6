import Reckon.Forest.Saturation
import Reckon.Proofs.Pattern.Reach
import Mathlib.Data.List.Nodup

/-!
# Derivation trees

What the rules can build over a text, said without rounds. The items of a rule are laid over the
text from left to right; a rule makes a node of its children if its items can be laid over them and
its production makes a value. Where a rule makes nodes of the same children and range both behind an
empty match and behind one that is not, it builds the former. A derivation tree is a node built by a
rule of which every child is a derivation tree.

Rule, range and the keys of the children determine a derivation tree.
-/

set_option autoImplicit false

namespace Reckon

variable {α : Type}

/-- What tells nodes apart: rule, range and, in order, the keys of the children. -/
inductive TreeKey where
  | mk (rule : String) (start stop : Int) (parts : List TreeKey)

namespace Node

mutual

def key : Node α → TreeKey
  | mk rule chars _ _ children => .mk rule chars.start chars.stop (keys children)

def keys : List (Node α) → List TreeKey
  | [] => []
  | node :: rest => node.key :: keys rest

end

theorem tallest_le_iff (nodes : List (Node α)) (bound : Nat) :
    tallest nodes ≤ bound ↔ ∀ node ∈ nodes, node.height ≤ bound := by
  induction nodes with
  | nil => simp [tallest]
  | cons node rest ih => rw [tallest, Nat.max_le, ih, List.forall_mem_cons]

theorem height_eq (node : Node α) : node.height = 1 + tallest node.children := by
  cases node
  rfl

theorem child_height_lt (node child : Node α) (member : child ∈ node.children) :
    child.height < node.height := by
  have below := (tallest_le_iff node.children (tallest node.children)).mp (Nat.le_refl _)
  have bound := below child member
  rw [height_eq node]
  omega

theorem height_eq_succ_iff (node : Node α) (k : Nat) (below : ∀ child ∈ node.children,
    child.height ≤ k) :
    node.height = k + 1 ↔ k = 0 ∨ ∃ child ∈ node.children, child.height = k := by
  have bound := (tallest_le_iff node.children k).mpr below
  rw [height_eq]
  constructor
  · intro top
    by_cases zero : k = 0
    · exact Or.inl zero
    · right
      by_contra none
      have lower : tallest node.children ≤ k - 1 := by
        rw [tallest_le_iff]
        intro child member
        have atMost := below child member
        have unequal : child.height ≠ k := fun same => none ⟨child, member, same⟩
        omega
      omega
  · rintro (zero | ⟨child, member, top⟩)
    · omega
    · have least := (tallest_le_iff node.children (tallest node.children)).mp (Nat.le_refl _)
        child member
      omega

theorem key_eq_key_iff (node other : Node α) : node.key = other.key ↔
    node.rule = other.rule ∧ node.chars = other.chars ∧
      keys node.children = keys other.children := by
  obtain ⟨rule, ⟨start, stop⟩, bytes, v, children⟩ := node
  obtain ⟨rule', ⟨start', stop'⟩, bytes', v', children'⟩ := other
  simp [key, Node.rule, Node.chars, Node.children, and_assoc]

end Node

namespace Forest

/-- The items of a rule laid over a text from `pos` on, with what they find, the nodes they take
and where they end. An item that reads the text is matched after a gap, and an empty match leaves
the gap in place. -/
inductive Laid (text : Array Char) :
    List (Item α) → Nat → List (Finding α) → List (Node α) → Nat → Prop
  | done (pos : Nat) : Laid text [] pos [] [] pos
  | text {p : Pattern} {rest : List (Item α)} {pos stop : Nat} {m : Pattern.Match}
      {findings : List (Finding α)} {children : List (Node α)}
      (found : p.matchAt text (Text.gapEnd text pos) = some m)
      (later : Laid text rest (if m.start < m.stop then m.stop else pos) findings children stop) :
      Laid text (.text p :: rest) pos (.text m :: findings) children stop
  | value {test : α → Except Failure Bool} {rest : List (Item α)} {pos stop : Nat} {node : Node α}
      {findings : List (Finding α)} {children : List (Node α)}
      (begins : node.chars.start = Text.gapEnd text pos)
      (passed : test node.value = .ok true)
      (later : Laid text rest node.chars.stop.toNat findings children stop) :
      Laid text (.value test :: rest) pos (.value node.value :: findings) (node :: children) stop

/-- All items of a rule laid over a text. The first is one of the successive matches of its
pattern, or a node anywhere. -/
inductive Spread (text : Array Char) :
    List (Item α) → Nat → List (Finding α) → List (Node α) → Nat → Prop
  | text {p : Pattern} {rest : List (Item α)} {start stop : Nat} {m : Pattern.Match}
      {findings : List (Finding α)} {children : List (Node α)}
      (found : m ∈ p.findAll text)
      (begins : m.start = start)
      (later : Laid text rest m.stop findings children stop) :
      Spread text (.text p :: rest) start (.text m :: findings) children stop
  | value {test : α → Except Failure Bool} {rest : List (Item α)} {start stop : Nat}
      {node : Node α} {findings : List (Finding α)} {children : List (Node α)}
      (begins : node.chars.start = start)
      (passed : test node.value = .ok true)
      (later : Laid text rest node.chars.stop.toNat findings children stop) :
      Spread text (.value test :: rest) start (.value node.value :: findings) (node :: children)
        stop

def byteAt (text : Array Char) (pos : Nat) : Int :=
  ((Text.byteOffsets text).getD pos 0 : Nat)

/-- A rule makes a node of the node's children and what its items find. -/
def Makes (text : Array Char) (r : Rule α) (findings : List (Finding α)) (node : Node α) : Prop :=
  ∃ (start stop : Nat) (value : α),
    Spread text r.items start findings node.children stop ∧
      r.produce findings = .ok (some value) ∧ start < stop ∧
      node = .mk r.name ⟨start, stop⟩ ⟨byteAt text start, byteAt text stop⟩ value node.children

/-- Whether what a rule finds begins with an empty match. -/
def opensEmpty : List (Finding α) → Bool
  | .text m :: _ => m.stop ≤ m.start
  | _ => false

theorem exists_of_opens_empty {findings : List (Finding α)} (empty : opensEmpty findings = true) :
    ∃ m later, findings = .text m :: later ∧ m.stop ≤ m.start := by
  cases findings with
  | nil => cases empty
  | cons finding later =>
      cases finding with
      | text m => exact ⟨m, later, rfl, of_decide_eq_true empty⟩
      | value v => cases empty

/-- A rule builds a node that it makes, unless it makes another one of the same range and children
behind an empty match. -/
def Builds (text : Array Char) (r : Rule α) (node : Node α) : Prop :=
  ∃ findings, Makes text r findings node ∧
    (opensEmpty findings = true ∨ ∀ others other, Makes text r others other →
      opensEmpty others = true → other.chars = node.chars → other.children ≠ node.children)

/-- A derivation tree of a text: every node in it is built by a rule. -/
inductive Derives (rs : RuleSet α) (text : Array Char) : Node α → Prop
  | intro (node : Node α) (r : Rule α) (member : r ∈ rs.rules) (built : Builds text r node)
      (parts : ∀ child ∈ node.children, Derives rs text child) : Derives rs text node

theorem derives_children {rs : RuleSet α} {text : Array Char} {node : Node α}
    (derives : Derives rs text node) : ∀ child ∈ node.children, Derives rs text child := by
  cases derives with
  | intro _ _ _ _ parts => exact parts

theorem Makes.rule_name {text : Array Char} {r : Rule α} {findings : List (Finding α)}
    {node : Node α} (makes : Makes text r findings node) : node.rule = r.name := by
  obtain ⟨start, stop, v, -, -, -, shape⟩ := makes
  rw [shape]
  rfl

section Makes

variable {text : Array Char} {r : Rule α} {rest : List (Item α)} {findings : List (Finding α)}
  {node : Node α}

theorem Makes.opening {p : Pattern} {m : Pattern.Match}
    (makes : Makes text r (.text m :: findings) node) (items : r.items = .text p :: rest) :
    m ∈ p.findAll text ∧ node.chars.start = m.start := by
  obtain ⟨start, stop, value, spread, -, -, shape⟩ := makes
  rw [items] at spread
  generalize node.children = children at spread shape
  cases spread with
  | text found begins later =>
      refine ⟨found, ?_⟩
      rw [shape, begins]
      rfl

theorem Makes.not_opens_empty {test : α → Except Failure Bool} (makes : Makes text r findings node)
    (items : r.items = .value test :: rest) : opensEmpty findings = false := by
  obtain ⟨start, stop, value, spread, -⟩ := makes
  rw [items] at spread
  generalize node.children = children at spread
  cases spread
  rfl

end Makes

/-- Of the nodes that a rule makes of the same range and children, it builds one. -/
theorem Makes.exists_builds {text : Array Char} {r : Rule α} {findings : List (Finding α)}
    {node : Node α} (makes : Makes text r findings node) :
    ∃ built, Builds text r built ∧ built.rule = node.rule ∧ built.chars = node.chars ∧
      built.children = node.children := by
  by_cases preferred : opensEmpty findings = true
  · exact ⟨node, ⟨findings, makes, .inl preferred⟩, rfl, rfl, rfl⟩
  · by_cases behind : ∃ others other, Makes text r others other ∧ opensEmpty others = true ∧
      other.chars = node.chars ∧ other.children = node.children
    · obtain ⟨others, other, made, empty, chars, children⟩ := behind
      exact ⟨other, ⟨others, made, .inl empty⟩, made.rule_name.trans makes.rule_name.symm, chars,
        children⟩
    · refine ⟨node, ⟨findings, makes, .inr ?_⟩, rfl, rfl, rfl⟩
      intro others other made empty chars children
      exact behind ⟨others, other, made, empty, chars, children⟩

/-! Where derivation trees lie. -/

theorem skip_blanks_range (text : Array Char) (fuel pos : Nat) :
    pos ≤ Text.skipBlanks text fuel pos ∧
      Text.skipBlanks text fuel pos ≤ max pos text.size := by
  induction fuel generalizing pos with
  | zero => simp only [Text.skipBlanks]; omega
  | succ fuel ih =>
      simp only [Text.skipBlanks]
      split
      · rename_i c here
        have inside : pos < text.size := (Array.getElem?_eq_some_iff.mp here).1
        split
        · have later := ih (pos + 1)
          omega
        · omega
      · omega

/-- A gap ends in the text, not before its start. -/
theorem gap_end_range (text : Array Char) (pos : Nat) :
    pos ≤ Text.gapEnd text pos ∧ Text.gapEnd text pos ≤ max pos text.size := by
  have blanks := skip_blanks_range text (text.size - pos) pos
  unfold Text.gapEnd Text.blanksFrom
  generalize Text.skipBlanks text (text.size - pos) pos = here at blanks
  have more := skip_blanks_range text (text.size - (here + 1)) (here + 1)
  by_cases comma : text[here]? = some ','
  · have inside : here < text.size := (Array.getElem?_eq_some_iff.mp comma).1
    simp only [if_pos comma]
    omega
  · simp only [if_neg comma]
    exact blanks

theorem blanks_from_solid {text : Array Char} {pos : Nat} {c : Char} (here : text[pos]? = some c)
    (solid : Text.isBlank c = false) : Text.blanksFrom text pos = pos := by
  have inside := (Array.getElem?_eq_some_iff.mp here).1
  obtain ⟨fuel, enough⟩ : ∃ fuel, text.size - pos = fuel + 1 := ⟨text.size - pos - 1, by omega⟩
  rw [Text.blanksFrom, enough, Text.skipBlanks]
  simp [here, solid]

theorem blanks_from_blank {text : Array Char} {pos : Nat} {c : Char} (here : text[pos]? = some c)
    (blank : Text.isBlank c = true) :
    Text.blanksFrom text pos = Text.blanksFrom text (pos + 1) := by
  have inside := (Array.getElem?_eq_some_iff.mp here).1
  have fuel : text.size - pos = (text.size - (pos + 1)) + 1 := by omega
  rw [Text.blanksFrom, fuel, Text.skipBlanks]
  simp [here, blank, Text.blanksFrom]

/-- A node that covers a non-empty range of the text, in characters and in bytes. -/
structure Covers (text : Array Char) (node : Node α) (start stop : Nat) : Prop where
  chars : node.chars = ⟨start, stop⟩
  bytes : node.bytes = ⟨byteAt text start, byteAt text stop⟩
  nonempty : start < stop
  inside : stop ≤ text.size

theorem laid_inside {text : Array Char} {items : List (Item α)} {pos stop : Nat}
    {findings : List (Finding α)} {children : List (Node α)}
    (laid : Laid text items pos findings children stop) (within : pos ≤ text.size)
    (covered : ∀ child ∈ children, ∃ first last, Covers text child first last) :
    stop ≤ text.size := by
  induction laid with
  | done pos => exact within
  | @text p rest pos stop m findings children found later ih =>
      have gap := gap_end_range text pos
      have range := Pattern.match_at_range text p _ m found
      apply ih
      · split <;> omega
      · exact covered
  | @value test rest pos stop node findings children begins passed later ih =>
      obtain ⟨first, last, covers⟩ := covered node (by simp)
      apply ih
      · rw [covers.chars]
        exact covers.inside
      · intro child member
        exact covered child (by simp [member])

/-- Every derivation tree covers a non-empty range of the text. -/
theorem derives_covers {rs : RuleSet α} {text : Array Char} {node : Node α}
    (derives : Derives rs text node) : ∃ start stop, Covers text node start stop := by
  induction derives with
  | intro node r member built parts ih =>
      obtain ⟨findings, ⟨start, stop, value, spread, -, nonempty, shape⟩, -⟩ := built
      refine ⟨start, stop, ?_, ?_, nonempty, ?_⟩
      · rw [shape]
        rfl
      · rw [shape]
        rfl
      · generalize node.children = children at spread ih
        generalize r.items = items at spread
        cases spread with
        | text found begins later =>
            exact laid_inside later (Pattern.find_all_range text _ _ found).2.1 ih
        | @value test rest start stop child findings children begins passed later =>
            obtain ⟨first, last, covers⟩ := ih child (by simp)
            apply laid_inside later
            · rw [covers.chars]
              exact covers.inside
            · intro child member
              exact ih child (by simp [member])

/-! The key of a derivation tree determines it. -/

theorem laid_unique {text : Array Char} {items : List (Item α)} {pos stop : Nat}
    {findings : List (Finding α)} {children : List (Node α)}
    (laid : Laid text items pos findings children stop) (others : List (Finding α)) (other : Nat)
    (again : Laid text items pos others children other) : findings = others := by
  induction laid generalizing others with
  | done pos => cases again; rfl
  | text found later ih =>
      cases again with
      | text foundAgain laterAgain =>
          rw [found] at foundAgain
          cases foundAgain
          rw [ih _ laterAgain]
  | value begins passed later ih =>
      cases again with
      | value _ _ laterAgain => rw [ih _ laterAgain]

/-- A rule that starts at a place and takes given nodes finds the same every time, but for an empty
match and another one at the same place. -/
theorem spread_unique {text : Array Char} {items : List (Item α)} {start stop other : Nat}
    {findings others : List (Finding α)} {children : List (Node α)}
    (spread : Spread text items start findings children stop)
    (again : Spread text items start others children other)
    (alike : opensEmpty findings = opensEmpty others) : findings = others := by
  cases spread with
  | @text p _ _ _ m _ _ found begins later =>
      cases again with
      | @text _ _ _ _ n _ _ foundAgain beginsAgain laterAgain =>
          have filled := decide_eq_decide.mp alike
          have same : m = n := (Pattern.find_all_finds found).unique
            (Pattern.find_all_finds foundAgain) (by rw [begins, beginsAgain]) (by omega)
          subst same
          rw [laid_unique later _ _ laterAgain]
  | value begins passed later =>
      cases again with
      | value _ _ laterAgain => rw [laid_unique later _ _ laterAgain]

/-- What a rule makes of given nodes over a range, and of matches that are alike, is one node. -/
theorem Makes.unique {text : Array Char} {r : Rule α} {findings others : List (Finding α)}
    {node other : Node α} (makes : Makes text r findings node)
    (again : Makes text r others other) (alike : opensEmpty findings = opensEmpty others)
    (chars : node.chars = other.chars) (children : node.children = other.children) :
    node = other := by
  obtain ⟨start, stop, v, spread, made, -, shape⟩ := makes
  obtain ⟨start', stop', v', spread', made', -, shape'⟩ := again
  rw [shape, shape'] at chars
  simp only [Node.chars, Span.mk.injEq, Int.ofNat_inj] at chars
  obtain ⟨rfl, rfl⟩ := chars
  rw [children] at spread
  cases spread_unique spread spread' alike
  rw [made'] at made
  cases made
  rw [shape, shape', children]

theorem keys_injective_on (nodes others : List (Node α))
    (each : ∀ node ∈ nodes, ∀ other ∈ others, node.key = other.key → node = other)
    (same : Node.keys nodes = Node.keys others) : nodes = others := by
  induction nodes generalizing others with
  | nil =>
      cases others with
      | nil => rfl
      | cons other others => simp [Node.keys] at same
  | cons node nodes ih =>
      cases others with
      | nil => simp [Node.keys] at same
      | cons other others =>
          simp only [Node.keys, List.cons.injEq] at same
          have heads := each node (by simp) other (by simp) same.1
          have tails := ih others
            (fun a left b right => each a (by simp [left]) b (by simp [right])) same.2
          rw [heads, tails]

theorem derives_key_injective {rs : RuleSet α} {text : Array Char} (distinct : rs.ruleNames.Nodup)
    {node other : Node α} (left : Derives rs text node) (right : Derives rs text other)
    (same : node.key = other.key) : node = other := by
  induction left generalizing other with
  | intro node r member built parts ih =>
      cases right with
      | intro _ r' member' built' parts' =>
          obtain ⟨names, chars, keys⟩ := (Node.key_eq_key_iff _ _).mp same
          have children : node.children = other.children :=
            keys_injective_on _ _
              (fun child inLeft child' inRight => ih child inLeft (parts' child' inRight)) keys
          obtain ⟨findings, makes, preferred⟩ := built
          obtain ⟨others, makesToo, preferredToo⟩ := built'
          rw [makes.rule_name, makesToo.rule_name] at names
          cases List.inj_on_of_nodup_map distinct member member' names
          have alike : opensEmpty findings = opensEmpty others := by
            rw [Bool.eq_iff_iff]
            constructor
            · intro empty
              by_contra filled
              exact (preferredToo.resolve_left filled) findings node makes empty chars children
            · intro empty
              by_contra filled
              exact (preferred.resolve_left filled) others other makesToo empty chars.symm
                children.symm
          exact makes.unique makesToo alike chars children

end Forest

end Reckon

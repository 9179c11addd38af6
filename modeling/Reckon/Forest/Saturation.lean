import Std.Data.HashSet
import Reckon.Forest.Node
import Reckon.Forest.Rule
import Reckon.Notice

/-!
The parse forest of a text: all nodes that the rules can build. The forest grows in rounds. The
first round applies the lexical rules; each later round builds the nodes that have at least one
child from the round before, so that no combination is built twice. Growth ends when a round adds
nothing, or at the bound on rounds or on nodes.

Between two items of a rule the text may have white space and at most one comma.
-/

set_option autoImplicit false

namespace Reckon

namespace Text

def skipBlanks (text : Array Char) : Nat → Nat → Nat
  | 0, pos => pos
  | fuel + 1, pos =>
    match text[pos]? with
    | some c => if isBlank c then skipBlanks text fuel (pos + 1) else pos
    | none => pos

def blanksFrom (text : Array Char) (pos : Nat) : Nat :=
  skipBlanks text (text.size - pos) pos

/-- Where the white space and the comma, if any, from `pos` on end. -/
def gapEnd (text : Array Char) (pos : Nat) : Nat :=
  let here := blanksFrom text pos
  if text[here]? = some ',' then blanksFrom text (here + 1) else here

end Text

variable {α : Type}

structure Entry (α : Type) where
  node : Node α
  parts : List Nat

structure Seat (α : Type) where
  place : Nat
  node : Node α
  isNew : Bool

/-- A rule laid over the text as far as `pos`. Findings and children are kept newest first. -/
structure Layout (α : Type) where
  start : Nat
  pos : Nat
  findings : List (Finding α) := []
  children : List (Seat α) := []

namespace Layout

def withMatch (l : Layout α) (m : Pattern.Match) : Layout α :=
  { l with
    pos := if m.start < m.stop then m.stop else l.pos
    findings := .text m :: l.findings }

def withSeat (l : Layout α) (seat : Seat α) : Layout α :=
  { l with
    pos := seat.node.chars.stop.toNat
    findings := .value seat.node.value :: l.findings
    children := seat :: l.children }

def parts (l : Layout α) : List Nat :=
  (l.children.map (·.place)).reverse

/-- Whether the layout has to be completed in this round: it uses a node of the last round, or the
round is the first. -/
def isDue (l : Layout α) (firstRound : Bool) : Bool :=
  firstRound || l.children.any (·.isNew)

/-- The entry that a complete layout of a rule produces, if the production does not decline and the
range is not empty. -/
def complete (offsets : Array Nat) (r : Rule α) (l : Layout α) :
    Except Failure (Option (Entry α)) := do
  match ← r.produce l.findings.reverse with
  | none => return none
  | some value =>
    if l.pos ≤ l.start then return none
    else
      let chars : Span := ⟨l.start, l.pos⟩
      let bytes : Span := ⟨offsets.getD l.start 0, offsets.getD l.pos 0⟩
      return some ⟨.mk r.name chars bytes value (l.children.map (·.node)).reverse, l.parts⟩

end Layout

/-- What a round works with. -/
structure Stage (α : Type) where
  text : Array Char
  offsets : Array Nat
  firstRound : Bool
  seats : List (Seat α)
  /-- The seats that start at each place, in order. -/
  byStart : Array (List (Seat α))

namespace Stage

def seatsAt (s : Stage α) (pos : Nat) : List (Seat α) :=
  s.byStart.getD pos []

def extend (s : Stage α) (r : Rule α) :
    List (Item α) → Layout α → Except Failure (List (Entry α))
  | [], l => do
    if l.isDue s.firstRound then return (← l.complete s.offsets r).toList
    else return []
  | .text p :: rest, l =>
    match p.matchAt s.text (Text.gapEnd s.text l.pos) with
    | some m => s.extend r rest (l.withMatch m)
    | none => .ok []
  | .value test :: rest, l => do
    let found ← (s.seatsAt (Text.gapEnd s.text l.pos)).mapM fun seat => do
      if ← test seat.node.value then s.extend r rest (l.withSeat seat) else return []
    return found.flatten

/-- The entries of one rule, in order. A rule has to have a first item. -/
def entriesOf (s : Stage α) (r : Rule α) : Except Failure (List (Entry α)) :=
  match r.items with
  | [] => .error .missingField
  | .text p :: rest => do
    let found ← (p.findAll s.text).mapM fun m =>
      s.extend r rest { start := m.start, pos := m.stop, findings := [.text m] }
    return found.flatten
  | .value test :: rest => do
    let found ← s.seats.mapM fun seat => do
      if ← test seat.node.value then
        s.extend r rest
          { start := seat.node.chars.start.toNat, pos := seat.node.chars.stop.toNat,
            findings := [.value seat.node.value], children := [seat] }
      else return []
    return found.flatten

def entries (s : Stage α) (rules : List (Rule α)) : Except Failure (List (Entry α)) := do
  let applied := if s.firstRound then rules else rules.filter fun r => !r.isLexical
  return (← applied.mapM s.entriesOf).flatten

end Stage

namespace Forest

/-- What makes a node the same as another: rule, range and the places of its children. -/
abbrev Key := String × Int × Int × List Nat

def keyOf (e : Entry α) : Key :=
  (e.node.rule, e.node.chars.start, e.node.chars.stop, e.parts)

/-- Drops the entries whose key has been seen, and adds the keys of the others. -/
def keepUnseen : Std.HashSet Key → List (Entry α) → List (Entry α) × Std.HashSet Key
  | seen, [] => ([], seen)
  | seen, e :: rest =>
    if seen.contains (keyOf e) then keepUnseen seen rest
    else
      let (kept, seen) := keepUnseen (seen.insert (keyOf e)) rest
      (e :: kept, seen)

def seatsOf (entries : List (Entry α)) (oldCount : Nat) : List (Seat α) :=
  entries.zipIdx.map fun (e, place) => ⟨place, e.node, oldCount ≤ place⟩

def groupByStart (size : Nat) (seats : List (Seat α)) : Array (List (Seat α)) :=
  seats.foldr (fun seat groups => groups.modify seat.node.chars.start.toNat (seat :: ·))
    (Array.replicate (size + 1) [])

/-- A forest as far as it has grown. The entries from `oldCount` on come from the last round. -/
structure Growth (α : Type) where
  entries : List (Entry α) := []
  oldCount : Nat := 0
  seen : Std.HashSet Key := {}
  notices : List Notice := []

def stageOf (text : Array Char) (offsets : Array Nat) (firstRound : Bool) (g : Growth α) :
    Stage α :=
  let seats := seatsOf g.entries g.oldCount
  ⟨text, offsets, firstRound, seats, groupByStart text.size seats⟩

def grow (rs : RuleSet α) (text : Array Char) (offsets : Array Nat) :
    Nat → Bool → Growth α → Except Failure (Growth α)
  | 0, _, g => .ok { g with notices := [.noFixpoint rs.maxRounds] }
  | fuel + 1, firstRound, g => do
    let made ← (stageOf text offsets firstRound g).entries rs.rules
    let (created, seen) := keepUnseen g.seen made
    if created.isEmpty then return g
    let grown : Growth α :=
      { entries := g.entries ++ created, oldCount := g.entries.length, seen := seen, notices := [] }
    if rs.maxNodes ≤ grown.entries.length then
      return { grown with notices := [.nodeCap rs.maxNodes] }
    grow rs text offsets fuel false grown

end Forest

/-- The forest of a text, children before parents, with a notice where a bound cut it short. -/
def RuleSet.apply (rs : RuleSet α) (text : Array Char) :
    Except Failure (List (Entry α) × List Notice) := do
  if text.isEmpty then return ([], [])
  let g ← Forest.grow rs text (Text.byteOffsets text) rs.maxRounds.toNat true {}
  return (g.entries, g.notices)

end Reckon

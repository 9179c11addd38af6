import Std.Data.HashSet.Lemmas
import Reckon.Forest.Saturation
import Reckon.Proofs.Sequencing

/-!
# Forests whose seen keys are listed

A forest grows alike whether the keys of its entries are kept in a hash set or in a list. Where they
are listed, the forest of a given text can be computed by reduction alone, without a hash.
-/

set_option autoImplicit false

namespace Reckon

variable {α : Type}

namespace Forest

def keepUnlisted : List Key → List (Entry α) → List (Entry α) × List Key
  | listed, [] => ([], listed)
  | listed, e :: rest =>
    if keyOf e ∈ listed then keepUnlisted listed rest
    else
      let (kept, listed) := keepUnlisted (keyOf e :: listed) rest
      (e :: kept, listed)

def growListed (rs : RuleSet α) (text : Array Char) (offsets : Array Nat) :
    Nat → Bool → List (Entry α) → Nat → List Key → Except Failure (List (Entry α) × List Notice)
  | 0, _, entries, _, _ => .ok (entries, [.noFixpoint rs.maxRounds])
  | fuel + 1, firstRound, entries, oldCount, listed => do
    let made ← (stageOf text offsets firstRound { entries, oldCount }).entries rs.rules
    let (created, listed) := keepUnlisted listed made
    if created.isEmpty then return (entries, [])
    let grown := entries ++ created
    if rs.maxNodes ≤ grown.length then return (grown, [.nodeCap rs.maxNodes])
    growListed rs text offsets fuel false grown entries.length listed

def Lists (seen : Std.HashSet Key) (listed : List Key) : Prop :=
  ∀ key, seen.contains key = true ↔ key ∈ listed

theorem Lists.insert {seen : Std.HashSet Key} {listed : List Key} (lists : Lists seen listed)
    (key : Key) : Lists (seen.insert key) (key :: listed) := by
  intro other
  rw [Std.HashSet.contains_insert, Bool.or_eq_true, beq_iff_eq, lists other, List.mem_cons, eq_comm]

theorem keep_unseen_eq_listed {seen : Std.HashSet Key} {listed : List Key}
    (lists : Lists seen listed) (es : List (Entry α)) :
    (keepUnseen seen es).1 = (keepUnlisted listed es).1 ∧
      Lists (keepUnseen seen es).2 (keepUnlisted listed es).2 := by
  induction es generalizing seen listed with
  | nil => exact ⟨rfl, lists⟩
  | cons e rest ih =>
      rw [keepUnseen, keepUnlisted]
      by_cases old : keyOf e ∈ listed
      · rw [if_pos ((lists _).mpr old), if_pos old]
        exact ih lists
      · rw [if_neg (mt (lists _).mp old), if_neg old]
        obtain ⟨kept, later⟩ := ih (lists.insert (keyOf e))
        exact ⟨congrArg (e :: ·) kept, later⟩

theorem grow_eq_listed (rs : RuleSet α) (text : Array Char) (offsets : Array Nat) (fuel : Nat)
    (firstRound : Bool) (g : Growth α) (quiet : g.notices = []) {listed : List Key}
    (lists : Lists g.seen listed) :
    (do let g ← grow rs text offsets fuel firstRound g; return (g.entries, g.notices)) =
      growListed rs text offsets fuel firstRound g.entries g.oldCount listed := by
  induction fuel generalizing firstRound g listed with
  | zero => rfl
  | succ fuel ih =>
      rw [grow, growListed]
      have stage : stageOf text offsets firstRound g =
          stageOf text offsets firstRound { entries := g.entries, oldCount := g.oldCount } := rfl
      rw [← stage]
      cases (stageOf text offsets firstRound g).entries rs.rules with
      | error failure => rfl
      | ok made =>
          obtain ⟨kept, later⟩ := keep_unseen_eq_listed lists made
          simp only [Sequencing.ok_bind, ← kept]
          split
          · rw [← quiet]
            rfl
          · split
            · rfl
            · exact ih false _ rfl later

end Forest

/-- The forest of a text, computed with listed keys. -/
def RuleSet.applyListed (rs : RuleSet α) (text : Array Char) :
    Except Failure (List (Entry α) × List Notice) :=
  if text.isEmpty then .ok ([], [])
  else Forest.growListed rs text (Text.byteOffsets text) rs.maxRounds.toNat true [] 0 []

theorem RuleSet.apply_eq_listed (rs : RuleSet α) (text : Array Char) :
    rs.apply text = rs.applyListed text := by
  have lists : Forest.Lists {} [] := by
    intro key
    simp
  rw [apply, applyListed]
  split
  · rfl
  · exact Forest.grow_eq_listed rs text _ _ true {} rfl lists

/-- A rule that reads an "x" in two ways, of which the first begins with an empty match. -/
def optionalThenRun : RuleSet Nat where
  rules := [⟨"run", [.text (.alt .empty (.one (.exactly 'x'))),
      .text (.repeated (.one (.exactly 'x')) 0 none)], fun
    | .text first :: _ => .ok (some first.content.length)
    | _ => .ok none⟩]
  maxRounds := 2
  maxNodes := 5

-- Both ways make a node of one key, and the one behind the empty match is kept.
example : (optionalThenRun.apply #['x']).toOption.map (·.1.map (·.node.value)) = some [0] := by
  rw [RuleSet.apply_eq_listed]
  decide +kernel

end Reckon

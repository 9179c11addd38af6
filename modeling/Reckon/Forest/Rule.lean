import Reckon.Failure
import Reckon.Pattern.Basic

/-!
Rules of a grammar. A rule lays its items over a text from left to right: an item is a pattern
matched against the text, or a test on the value of a node built before. The production then makes a
value of what the items found, or declines.
-/

set_option autoImplicit false

namespace Reckon

inductive Finding (α : Type) where
  | text (m : Pattern.Match)
  | value (v : α)

inductive Item (α : Type) where
  | text (p : Pattern)
  | value (test : α → Except Failure Bool)

namespace Item

variable {α : Type}

def holding (test : α → Bool) : Item α :=
  value fun v => .ok (test v)

def isText : Item α → Bool
  | text _ => true
  | value _ => false

def pattern? : Item α → Option Pattern
  | text p => some p
  | value _ => none

end Item

structure Rule (α : Type) where
  name : String
  items : List (Item α)
  produce : List (Finding α) → Except Failure (Option α)

namespace Rule

variable {α : Type}

def isLexical (r : Rule α) : Bool :=
  r.items.all (·.isText)

end Rule

/-- Rules in order, with bounds on the rounds and the nodes of a forest. -/
structure RuleSet (α : Type) where
  rules : List (Rule α)
  maxRounds : Int := 16
  maxNodes : Int := 4000

namespace RuleSet

variable {α : Type}

def ruleNames (rs : RuleSet α) : List String :=
  rs.rules.map (·.name)

def repeatedNames (names : List String) : List String :=
  (names.filter fun name => 1 < names.count name).eraseDups.mergeSort fun a b => !(b < a)

def checked (rs : RuleSet α) : Except Failure (RuleSet α) :=
  match repeatedNames rs.ruleNames with
  | [] => .ok rs
  | names => .error (.duplicateRules names)

def size (rs : RuleSet α) : Nat :=
  rs.rules.length

def patternCount (rs : RuleSet α) : Nat :=
  (rs.rules.flatMap fun r => r.items.filterMap (·.pattern?)).eraseDups.length

end RuleSet

end Reckon

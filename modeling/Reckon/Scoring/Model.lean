import Reckon.Forest.Saturation
import Reckon.Scoring.LogSigmoid

/-!
Scoring of nodes. A model is a logistic regression on the features of a node: its rule, and its rule
together with those of its children. A node's own score is the logarithm of the probability that it
belongs to a right parse, and the score of a node is the sum of the own scores over its tree.
-/

set_option autoImplicit false

namespace Reckon

namespace Node

variable {α : Type}

/-- The features of a node: one for its rule, and one with its children's rules if it has
children. -/
def features (node : Node α) : List String :=
  let own := "rule:" ++ node.rule
  if node.children.isEmpty then [own]
  else [own, own ++ "|" ++ "+".intercalate (node.children.map (·.rule))]

end Node

/-- Weights in units of `2 ^ -scale`; a feature without a weight counts nothing. -/
structure Weights where
  intercept : Int
  table : List (String × Int)
  scale : Nat := 10
deriving DecidableEq, Repr

namespace Weights

def weight (w : Weights) (feature : String) : Int :=
  (w.table.lookup feature).getD 0

def activation (w : Weights) (features : List String) : Int :=
  w.intercept + (features.map w.weight).foldr (· + ·) 0

end Weights

structure Model where
  weights : Weights
  /-- Whether the class of right parses is the first of two, whose probability is the complement. -/
  complemented : Bool := false
  lang : String := ""
  fingerprint : Option String := none
deriving DecidableEq, Repr

namespace Model

variable {α : Type}

def featureScore (m : Model) (features : List String) : Score :=
  let z := m.weights.activation features
  if m.complemented then LogSigmoid.complementScore z m.weights.scale
  else LogSigmoid.score z m.weights.scale

def ownScore (m : Model) (node : Node α) : Score :=
  m.featureScore node.features

def percent (m : Model) (features : List String) : Nat :=
  let z := m.weights.activation features
  LogSigmoid.hundredths (if m.complemented then -z else z) m.weights.scale

def scoreEntry (m : Model) (earlier : Array Score) (e : Entry α) : Except Failure Score := do
  let parts ← e.parts.mapM fun place =>
    match earlier[place]? with
    | some s => .ok s
    | none => .error .unscoredChild
  return (m.ownScore e.node).add (Score.total parts)

/-- The scores of entries that list children before their parents. -/
def scoresFrom (m : Model) : Array Score → List (Entry α) → Except Failure (Array Score)
  | scores, [] => .ok scores
  | scores, e :: rest => do m.scoresFrom (scores.push (← m.scoreEntry scores e)) rest

def scores (m : Model) (entries : List (Entry α)) : Except Failure (List Score) := do
  return (← m.scoresFrom #[] entries).toList

def isForOtherRules (m : Model) (fingerprint : String) : Bool :=
  match m.fingerprint with
  | some own => own != "" && own != fingerprint
  | none => false

end Model

end Reckon

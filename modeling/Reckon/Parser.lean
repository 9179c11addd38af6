import Reckon.Resolution
import Reckon.Scoring.Model
import Reckon.Selection

/-!
Parsing: from a text to the expressions found in it. The rules build a forest, a model scores it,
the selection tags the nodes to report, and each of these is resolved in a context. A candidate that
cannot be resolved is dropped with a notice; any other failure ends the text.
-/

set_option autoImplicit false

namespace Reckon

structure Mention where
  bytes : Span
  chars : Span
  height : Nat
  size : Nat
  output : Output
  score : Score
  latent : Bool

def Mention.kind (m : Mention) : Kind := m.output.kind

structure Parser where
  rules : RuleSet Value
  model : Model

namespace Parser

/-- The last place of a kind in an order of priority. -/
def priority (order : List Kind) (kind : Kind) : Nat :=
  order.length - 1 - order.reverse.idxOf kind

/-- The order of report: by start, then by priority, then the longer first. -/
def reportedBefore (order : List Kind) (a b : Mention) : Bool :=
  if a.bytes.start ≠ b.bytes.start then a.bytes.start < b.bytes.start
  else if priority order a.kind ≠ priority order b.kind then
    priority order a.kind < priority order b.kind
  else b.bytes.stop - b.bytes.start ≤ a.bytes.stop - a.bytes.start

def isDroppable : Failure → Bool
  | .coercion _ | .resolution _ => true
  | _ => false

def mentionOf (c : Candidate) (output : Output) : Mention :=
  { bytes := c.node.bytes
    chars := c.node.chars
    height := c.node.height
    size := c.node.size
    output
    score := c.score
    latent := c.latent }

/-- What becomes of a candidate: a mention, or a notice that it was dropped. -/
def report (context : Context) (text : Array Char) (c : Candidate) :
    Except Failure (Mention ⊕ Notice) :=
  match c.node.value.resolve c.kind context with
  | .ok output => .ok (.inl (mentionOf c output))
  | .error failure =>
    if isDroppable failure then
      let content := Pattern.charsBetween text c.node.chars.start.toNat c.node.chars.stop.toNat
      .ok (.inr (.dropped c.kind.label (String.ofList content) (failure.message.getD "")))
    else .error failure

def scored (p : Parser) (text : Array Char) : Except Failure (List Scored × List Notice) := do
  let (entries, notices) ← p.rules.apply text
  let scores ← p.model.scores entries
  return ((entries.zip scores).map fun (e, s) => ⟨e.node, s⟩, notices)

def candidates (p : Parser) (text : Array Char) (order : List Kind) (mode : Selection) :
    Except Failure (List Candidate × List Notice) := do
  let (nodes, notices) ← p.scored text
  return (← mode.tag order nodes, notices)

def parse (p : Parser) (text : Array Char) (context : Context) (order : List Kind)
    (mode : Selection) : Except Failure (List Mention × List Notice) := do
  let (found, notices) ← p.candidates text order mode
  let reports ← found.mapM (report context text)
  let mentions := reports.filterMap Sum.getLeft?
  let drops := reports.filterMap Sum.getRight?
  return (mentions.mergeSort (reportedBefore order), notices ++ drops)

/-- Without a context nothing can be resolved. -/
def parseIn (p : Parser) (text : Array Char) (context : Option Context) (order : List Kind)
    (mode : Selection) : Except Failure (List Mention × List Notice) :=
  match context with
  | some c => p.parse text c order mode
  | none => .error .contextMissing

end Parser

end Reckon

import Reckon.Forest.Node
import Reckon.Kind
import Reckon.Scoring.Score

/-!
Selection of the nodes to resolve. Kinds are served in order of priority; within a kind the
candidates are visited longest first, then by score and by simplicity. A candidate is tagged if it
overlaps none that was tagged before it. One that overlaps a tagged candidate of an earlier kind is
dropped; one that overlaps a tagged candidate of its own kind is dropped too, or kept untagged as an
alternative.
-/

set_option autoImplicit false

namespace Reckon

/-- Whether only the best readings are wanted, or all alternatives within a kind as well. -/
inductive Selection where
  | bestOnly | exhaustive
deriving DecidableEq, Repr

structure Scored where
  node : Node Value
  score : Score

structure Candidate where
  node : Node Value
  score : Score
  kind : Kind
  tagged : Bool

namespace Candidate

/-- An untagged candidate is an alternative, and latent as such. -/
def latent (c : Candidate) : Bool :=
  c.node.value.latent || !c.tagged

end Candidate

namespace Scored

def kind? (c : Scored) : Option Kind :=
  c.node.value.dimension?.bind Kind.ofDimension?

def byteLength (c : Scored) : Int :=
  c.node.bytes.stop - c.node.bytes.start

/-- The order of visits: the longer span, then the higher score, the lower tree, the fewer nodes,
the earlier start. -/
def ranksBefore (a b : Scored) : Bool :=
  if a.byteLength ≠ b.byteLength then b.byteLength < a.byteLength
  else if a.score ≠ b.score then b.score.le a.score
  else if a.node.height ≠ b.node.height then a.node.height < b.node.height
  else if a.node.size ≠ b.node.size then a.node.size < b.node.size
  else a.node.bytes.start ≤ b.node.bytes.start

end Scored

namespace Selection

/-- The kinds to serve. All are served where no order is given, and an empty order is none where
alternatives are wanted. -/
def orderOf (mode : Selection) : Option (List Kind) → List Kind
  | none => Kind.all
  | some [] => if mode == .exhaustive then Kind.all else []
  | some order => order

/-- Whether a candidate takes part: its kind is wanted, and it is not latent unless all are
wanted. -/
def isEligible (mode : Selection) (order : List Kind) (c : Scored) : Bool :=
  (match c.kind? with
    | some kind => order.contains kind
    | none => false) && (mode == .exhaustive || !c.node.value.latent)

def ranked (mode : Selection) (kind : Kind) (candidates : List Scored) : List Scored :=
  (candidates.filter (mode.isEligible [kind])).mergeSort Scored.ranksBefore

/-- Visits ranked candidates of one kind. `blocked` holds the spans tagged for earlier kinds,
`taken` those tagged for this one; gives the candidates kept and the spans tagged. -/
def sweep (mode : Selection) (kind : Kind) (blocked : List Span) :
    List Span → List Scored → List Candidate × List Span
  | taken, [] => ([], taken)
  | taken, c :: rest =>
    if blocked.any c.node.bytes.overlaps then sweep mode kind blocked taken rest
    else if taken.any c.node.bytes.overlaps then
      let (kept, taken) := sweep mode kind blocked taken rest
      if mode = .exhaustive then (⟨c.node, c.score, kind, false⟩ :: kept, taken) else (kept, taken)
    else
      let (kept, taken) := sweep mode kind blocked (taken ++ [c.node.bytes]) rest
      (⟨c.node, c.score, kind, true⟩ :: kept, taken)

/-- Serves the kinds one after the other; the spans tagged for one are blocked for the later
ones. -/
def serve (mode : Selection) (candidates : List Scored) : List Span → List Kind → List Candidate
  | _, [] => []
  | blocked, kind :: later =>
    let (kept, taken) := mode.sweep kind blocked [] (mode.ranked kind candidates)
    kept ++ mode.serve candidates (blocked ++ taken) later

/-- The candidates to resolve, by kind in order of priority; a kind counts where it first occurs. -/
def tag (mode : Selection) (order : List Kind) (candidates : List Scored) :
    Except Failure (List Candidate) :=
  if candidates.any fun c => c.node.value.dimension?.isNone then .error .missingField
  else if candidates.any fun c => mode.isEligible order c && c.byteLength < 0 then
    .error .outOfRange
  else .ok (mode.serve candidates [] order.eraseDups)

end Selection

end Reckon

import Std.Data.HashSet
import Reckon.Check
import Reckon.Parser

/-!
Training samples. Every node of the forest of an example text is a sample; it is positive if it
belongs to a tree that spans the whole text and means what the example says.
-/

set_option autoImplicit false

namespace Reckon

structure Sample where
  features : List String
  positive : Bool
deriving DecidableEq, Repr

namespace Sample

/-- Whether an entry spans a text of the given length and has the meaning expected; an entry that
cannot be resolved has not. -/
def isRight (check : Check) (context : Context) (length : Nat) (e : Entry Value) :
    Except Failure Bool := do
  if e.node.chars ≠ ⟨0, length⟩ then return false
  let some dimension := e.node.value.dimension? | throw .missingField
  let some kind := Kind.ofDimension? dimension | return false
  match e.node.value.resolve kind context with
  | .ok output => check.accepts output
  | .error failure => if Parser.isDroppable failure then return false else throw failure

/-- The places of right entries and of all nodes below them, given the entries from the last one
back to the first, each with its place. -/
def spread : Std.HashSet Nat → List ((Entry Value × Bool) × Nat) → Std.HashSet Nat
  | marked, [] => marked
  | marked, ((e, right), place) :: earlier =>
    if right || marked.contains place then
      spread ((place :: e.parts).foldl (·.insert ·) marked) earlier
    else spread marked earlier

def ofText (rules : RuleSet Value) (context : Context) (check : Check) (text : String) :
    Except Failure (List Sample × List Notice) := do
  let cs := text.toList.toArray
  let (entries, notices) ← rules.apply cs
  let rights ← entries.mapM (isRight check context cs.size)
  let marked := spread {} ((entries.zip rights).zipIdx.reverse)
  let samples := entries.zipIdx.map fun (e, place) => ⟨e.node.features, marked.contains place⟩
  return (samples, if marked.isEmpty then notices ++ [.noParse text] else notices)

def ofExamples (rules : RuleSet Value) (context : Context) (examples : List Example) :
    Except Failure (List Sample × List Notice) := do
  let found ← (examples.flatMap fun e => e.texts.map fun text => (e.check, text)).mapM
    fun (check, text) => ofText rules context check text
  return (found.flatMap (·.1), found.flatMap (·.2))

end Sample

end Reckon

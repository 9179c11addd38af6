import Reckon.Parser

/-!
Coverage: how many texts a parser reads as a whole. A text is covered if one mention in it spans all
of it but the white space at its ends.
-/

set_option autoImplicit false

namespace Reckon

structure Annotated where
  text : String
  mentions : List Mention

namespace Annotated

/-- The span of the text without the white space at its ends, unless nothing is left. -/
def body? (a : Annotated) : Option Span :=
  let cs := a.text.toList
  let body := Text.trim cs
  if body.isEmpty then none
  else
    let start := Text.leadingTrimmed cs
    some ⟨start, (start : Int) + body.length⟩

def isCovered (a : Annotated) : Bool :=
  match a.body? with
  | some body => a.mentions.any fun m => m.chars.contains body
  | none => false

end Annotated

structure Coverage where
  texts : List Annotated

namespace Coverage

def size (c : Coverage) : Nat :=
  c.texts.length

/-- The share of covered texts, zero of no texts. -/
def share (c : Coverage) : Binary64 :=
  if c.texts.isEmpty then Binary64.zero
  else Binary64.ofRatio false (c.texts.countP (·.isCovered)) c.size

def failed (c : Coverage) : List String :=
  (c.texts.filter fun a => !a.isCovered).map (·.text)

def kindsByName : List Kind :=
  Kind.all.mergeSort fun a b => a.label ≤ b.label

def counts (c : Coverage) : List (Kind × Nat) :=
  let kinds := c.texts.flatMap fun a => a.mentions.map (·.kind)
  (kindsByName.map fun kind => (kind, kinds.count kind)).filter fun (_, n) => 0 < n

end Coverage

def Parser.coverage (p : Parser) (texts : List String) (context : Context) (order : List Kind) :
    Except Failure (Coverage × List Notice) := do
  let results ← texts.mapM fun text => do
    let (mentions, notices) ← p.parse text.toList.toArray context order .bestOnly
    return (Annotated.mk text mentions, notices)
  return (⟨results.map (·.1)⟩, results.flatMap (·.2))

end Reckon

import Reckon.Forest.Rule
import Reckon.Text.Digit
import Reckon.Value.Basic

/-!
Rules given as data: items that ask for a dimension and for bounds on the number a value holds, and
a handful of productions.
-/

set_option autoImplicit false

namespace Reckon

inductive ItemData where
  | text (p : Pattern)
  /-- A value of a dimension, or of any, whose number lies within the bounds given. -/
  | value (dimension : Option Dimension) (least most : Option Numeral)

namespace ItemData

def isWithin (least most : Option Numeral) (v : Value) : Except Failure Bool :=
  if least.isNone && most.isNone then .ok true
  else match v.numeral? with
    | none => .error .missingField
    | some n => .ok ((least.all (·.le n)) && (most.all n.le))

def isOf (dimension : Option Dimension) (v : Value) : Bool :=
  match dimension, v with
  | none, _ => true
  | some _, .unknown _ _ => false
  | some d, v => v.dimension? == some d

def toItem : ItemData → Item Value
  | text p => .text p
  | value dimension least most =>
    .value fun v => if isOf dimension v then isWithin least most v else .ok false

end ItemData

inductive ProductionData where
  /-- The integer that the first matched text writes. -/
  | readInteger
  /-- The length of the first matched text. -/
  | length
  /-- The sum of the numbers found. -/
  | total
  | decline
  | constant (v : Value)

namespace ProductionData

def firstText : List (Finding Value) → Except Failure (List Char)
  | [] => .error .missingField
  | .text m :: _ => .ok m.content
  | .value _ :: rest => firstText rest

def numbers : List (Finding Value) → List Numeral
  | [] => []
  | .value (.number n) :: rest => n.value :: numbers rest
  | _ :: rest => numbers rest

def sumOf : List Numeral → Numeral → Except Failure Numeral
  | [], sum => .ok sum
  | n :: rest, sum => do sumOf rest (← sum.add n)

def integerOf (cs : List Char) : Except Failure Int :=
  if cs.isEmpty || !cs.all Text.isDigit || 4300 < cs.length then .error .outOfRange
  else .ok (Text.readNat cs)

def ofNumeral (n : Numeral) : Option Value :=
  some (.number { value := n })

def run (p : ProductionData) (findings : List (Finding Value)) : Except Failure (Option Value) :=
  match p with
  | readInteger => do return ofNumeral (.int (← integerOf (← firstText findings)))
  | length => do return ofNumeral (.int (← firstText findings).length)
  | total => do return ofNumeral (← sumOf (numbers findings) (.int 0))
  | decline => .ok none
  | constant v => .ok (some v)

end ProductionData

def ruleOfData (name : String) (items : List ItemData) (production : ProductionData) : Rule Value :=
  ⟨name, items.map (·.toItem), production.run⟩

end Reckon

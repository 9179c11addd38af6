import Reckon.English.Numbers

/-!
Ordinal numbers: words, digits with an ending, and tens with a unit.
-/

set_option autoImplicit false

namespace Reckon.English.Ordinals

def ofInt (n : Int) : Value :=
  .ordinal { value := .int n }

def readWord (word : String) : Option Int :=
  lookUp ordinals word

def word (readings : Readings) : List (Finding Value) → Produced
  | [.text m] =>
    match readings.ordinal (lowered m.content) with
    | some n => made (ofInt n)
    | none => declined
  | _ => declined

def digits : List (Finding Value) → Produced
  | [.text m] => do made (ofInt (← readInteger ((m.group? 1).getD [])))
  | _ => declined

def compound : List (Finding Value) → Produced
  | [.value (.number tens), .text _, .value (.ordinal unit)] =>
    match tens.value.int?, unit.value.int? with
    | some a, some b => if 1 ≤ b && b ≤ 9 then made (ofInt (a + b)) else declined
    | _, _ => declined
  | _ => declined

def isTens (n : NumberValue) : Bool :=
  n.fromWords && n.grain == some 1 &&
    (match n.value.int? with
      | some i => i % 10 == 0 && 20 ≤ i && i ≤ 90
      | none => false)

def ordinalWord : Pattern := .wholeWord (ordinals.map (·.1))

def ordinalDigits : Pattern :=
  .sequence
    [.notBehind [.digit], .group 1 (.some .digit), .optional .blank,
      .words ["st", "nd", "rd", "th"], .edge]

def rules (readings : Readings) : List (Rule Value) :=
  [ ⟨"ordinal: words", [.text ordinalWord], word readings⟩,
    ⟨"ordinal: digits", [.text ordinalDigits], digits⟩,
    ⟨"ordinal: tens and unit",
      [Test.number isTens, .text (.optional (.char '-')), Test.ordinal Test.any], compound⟩ ]

end Reckon.English.Ordinals

import Reckon.English.Numbers

/-!
Temperatures and percentages.
-/

set_option autoImplicit false

namespace Reckon.English.Measures

/-- Any number may be a temperature, but only latently. -/
def bareTemperature : List (Finding Value) → Produced
  | [.value (.number n)] => do
    made (.temperature { value := .float (← n.value.toFloat), latent := true })
  | _ => declined

def degrees : List (Finding Value) → Produced
  | [.value (.temperature t), .text _] =>
    made (.temperature { value := t.value, unit := some "degree" })
  | _ => declined

def scales : List (String × String) :=
  [("c", "celsius"), ("f", "fahrenheit"), ("k", "kelvin"), ("centigrade", "celsius")]

def scaled : List (Finding Value) → Produced
  | [.value (.temperature t), .text m] =>
    let word := lowered m.content
    made (.temperature { value := t.value, unit := some ((lookUp scales word).getD word) })
  | _ => declined

def percentage : List (Finding Value) → Produced
  | [.value (.number n), .text _] => do
    made (.percentage { value := .float (← n.value.toFloat) })
  | _ => declined

def degreeSign : Pattern :=
  .alt (.char '°')
    (.whole (.seq (.literal "deg") (.optional (.seq (.literal "ree") (.optional (.literal "s"))))))

def scaleName : Pattern :=
  .wholeWord ["celsius", "centigrade", "fahrenheit", "kelvin"]

def scaleLetter : Pattern :=
  .seq (.words ["c", "f", "k"]) .edge

def percentSign : Pattern :=
  .alt (.char '%') (.whole (.sequence [.literal "per", .optional .blank, .literal "cent"]))

def hasNoUnit (t : TemperatureValue) : Bool :=
  t.unit.isNone

def isInDegrees (t : TemperatureValue) : Bool :=
  t.unit == some "degree"

def temperatureRules : List (Rule Value) :=
  [ ⟨"temperature: bare number", [Test.number Test.any], bareTemperature⟩,
    ⟨"temperature: degrees", [Test.temperature hasNoUnit, .text degreeSign], degrees⟩,
    ⟨"temperature: named scale",
      [Test.temperature fun t => hasNoUnit t || isInDegrees t, .text scaleName], scaled⟩,
    ⟨"temperature: scale letter", [Test.temperature isInDegrees, .text scaleLetter], scaled⟩ ]

def percentageRules : List (Rule Value) :=
  [ ⟨"percentage: number percent", [Test.number Test.any, .text percentSign], percentage⟩ ]

end Reckon.English.Measures

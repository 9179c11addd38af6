import Reckon.English.Numbers

/-!
Durations: counted units of time, and compositions of them from the coarsest unit to the finest.
-/

set_option autoImplicit false

namespace Reckon.English.Durations

def grain : List (Finding Value) → Produced
  | [.text m] => do
    let start := String.ofList ((Text.lower m.content).take 2)
    made (.timeGrain { grain := ← entryOf grainPrefixes start })
  | _ => declined

def counted : List (Finding Value) → Produced
  | [.value (.number n), .value (.timeGrain g)] =>
    match n.value.int? with
    | some count => made (.duration { period := [(g.grain, count)] })
    | none => declined
  | _ => declined

def single : List (Finding Value) → Produced
  | [.text _, .value (.timeGrain g)] => made (.duration { period := [(g.grain, 1)] })
  | _ => declined

def halfHour : List (Finding Value) → Produced
  | [.text _] => made (.duration { period := [(.minute, 30)] })
  | _ => declined

/-- Two durations side by side, if every unit of the second is finer than all of the first. -/
def merge (a b : DurationValue) : Except Failure (Option DurationValue) :=
  match b.period.coarsest?, a.period.finest? with
  | some coarsest, some finest =>
    if finest.size ≤ coarsest.size then .ok none
    else .ok (some { period := a.period ++ b.period, precision := a.precision })
  | _, _ => .error .outOfRange

def composite : List (Finding Value) → Produced
  | [.value (.duration a), .text _, .value (.duration b)] => do
    return (← merge a b).map .duration
  | _ => declined

def approximately : List (Finding Value) → Produced
  | [.text _, .value (.duration d)] =>
    made (.duration { period := d.period, precision := .approximate })
  | _ => declined

def isCount (n : NumberValue) : Bool :=
  n.value.isInt && Numbers.isNonNegative n

def plural (stem : Pattern) : Pattern :=
  .seq stem (.optional (.literal "s"))

def unitWord : Pattern :=
  .whole (.anyOf
    [plural (.seq (.literal "sec") (.optional (.literal "ond"))),
      plural (.seq (.literal "min") (.optional (.literal "ute"))),
      plural (.literal "hour"), plural (.literal "hr"), plural (.literal "day"),
      plural (.literal "week"), plural (.literal "month"), plural (.literal "year"),
      plural (.literal "yr")])

def article : Pattern :=
  .seq (.literal "a") (.optional (.literal "n"))

def rules : List (Rule Value) :=
  [ ⟨"duration: unit", [.text unitWord], grain⟩,
    ⟨"duration: count unit", [Test.number isCount, Test.timeGrain], counted⟩,
    ⟨"duration: a unit", [.text (.whole article), Test.timeGrain], single⟩,
    ⟨"duration: half an hour",
      [.text (.whole (.sequence [.literal "half ", article, .literal " hour"]))], halfHour⟩,
    ⟨"duration: composite",
      [Test.duration Test.any, .text (.optional (.wholeWord ["and"])), Test.duration Test.any],
      composite⟩,
    ⟨"duration: approximately", [.text approximation, Test.exact .duration], approximately⟩ ]

end Reckon.English.Durations

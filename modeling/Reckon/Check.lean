import Reckon.Output

/-!
Checks of outputs, and the examples of a corpus: texts that all mean the same, with a check that
tells whether an output is that meaning. Amounts agree within a millionth, everything else exactly.
-/

set_option autoImplicit false

namespace Reckon

inductive Check where
  | integer (value : Numeral)
  | float (value : Numeral)
  | ordinal (value : Numeral)
  | percentage (value : Numeral)
  | temperature (value : Numeral) (unit : Option String)
  | money (value : Numeral) (unit : Option String) (precision : Precision)
  | duration (period : Period) (precision : Precision)
  /-- The leading fields of the reading, from the year on. -/
  | moment (fields : List Int) (grain : Grain)
  | interval (start stop : List Int) (grain : Grain)
deriving DecidableEq, Repr

structure Example where
  texts : List String
  check : Check
deriving DecidableEq, Repr

namespace Period

def countOf (p : Period) (g : Grain) : Option Int :=
  p.reverse.lookup g

def normal (p : Period) : List (Grain × Int) :=
  Grain.all.filterMap fun g => (p.countOf g).map fun n => (g, n)

end Period

namespace Check

def tolerance : Binary64 := Binary64.ofDecimal 1 6

def isClose (x : Binary64) (value : Numeral) : Except Failure Bool := do
  return ((x.add (← value.toFloat).neg).abs).le tolerance

def fieldsOf (m : Moment) : List Int :=
  let t := m.reading
  [t.date.year, t.date.month, t.date.day, t.hour, t.minute, t.second]

/-- Whether the fields wanted are the first ones of the moment; any beyond the second are not looked
at. -/
def hasFields (m : Moment) (wanted : List Int) : Bool :=
  ((fieldsOf m).zip wanted).all fun (field, want) => field == want

/-- Whether an output is what the check expects; a number too large to compare is out of range. -/
def accepts : Check → Output → Except Failure Bool
  | integer value, .integer n => .ok (value.eq (.int n))
  | float value, .float x => isClose x value
  | ordinal value, .ordinal n => .ok (value.eq (.int n))
  | percentage value, .percentage x => isClose x value
  | temperature value unit, .temperature x own => do
    return (← isClose x value) && own == unit
  | money value unit precision, .money x ownPrecision own => do
    return (← isClose x value) && own == unit && ownPrecision == precision
  | duration period precision, .duration own ownPrecision =>
    .ok (own.normal == period.normal && ownPrecision == precision)
  | moment fields grain, .datetime m ownGrain _ _ => .ok (ownGrain == grain && hasFields m fields)
  | interval start stop grain, .interval a b ownGrain _ _ =>
    .ok (ownGrain == grain && hasFields a start && hasFields b stop)
  | _, _ => .ok false

/-- The modulus of the hash of a count, the prime 2 ^ 61 - 1. -/
def hashModulus : Nat := 2305843009213693951

/-- The hash of a count: its remainder with its sign, where -1 falls together with -2. -/
def hashOfCount (n : Int) : Int :=
  let rest : Int := (n.natAbs % hashModulus : Nat)
  let signed := if n < 0 then -rest else rest
  if signed = -1 then -2 else signed

/-- What two duration checks have in common if they hash alike; the precision has no part in it. -/
def hashKey? : Check → Option (List (Grain × Int))
  | duration period _ => some (period.normal.map fun (g, n) => (g, hashOfCount n))
  | _ => none

end Check

end Reckon

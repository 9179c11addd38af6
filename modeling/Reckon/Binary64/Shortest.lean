import Reckon.Binary64.Basic

/-!
The shortest decimal text of a floating-point number: the fewest digits that read back as the
number, and of those the digits nearest to it. Numbers from 0.0001 up to 10 ^ 16 are written
positionally, with at least one digit after the point, all others with an exponent.
-/

set_option autoImplicit false

namespace Reckon.Binary64

structure Decimal where
  digits : Nat
  power : Int
deriving DecidableEq, Repr

def Decimal.nearest (d : Decimal) : Binary64 :=
  if 0 ≤ d.power then ofRatio false (d.digits * tenTo d.power.toNat) 1
  else ofDecimal d.digits (-d.power).toNat

def ratio (mantissa : Nat) (exponent : Int) : Nat × Nat :=
  if 0 ≤ exponent then (mantissa <<< exponent.toNat, 1) else (mantissa, 1 <<< (-exponent).toNat)

def inUnits (num den : Nat) (power : Int) : Nat × Nat :=
  if 0 ≤ power then (num, den * tenTo power.toNat) else (num * tenTo (-power).toNat, den)

def leadingPower (num den : Nat) : Int :=
  if den ≤ num then ((Nat.toDigits 10 (num / den)).length : Int) - 1
  else -((Nat.toDigits 10 ((den - 1) / num)).length : Int)

/-- The one of the two decimals around the quotient on the grid `10 ^ power` that reads back as
`target`; of two, the nearer. -/
def onGrid (target : Binary64) (num den : Nat) (power : Int) : Option Decimal :=
  let (n, d) := inUnits num den power
  let low : Decimal := ⟨n / d, power⟩
  let high : Decimal := ⟨n / d + 1, power⟩
  let lowReads := low.nearest = target
  let highReads := high.nearest = target
  let near := roundQuotient n d
  if lowReads && highReads then some ⟨near, power⟩
  else if lowReads then some low
  else if highReads then some high
  else none

def search (target : Binary64) (num den : Nat) (leading : Int) : Nat → Nat → Decimal
  | 0, _ => ⟨num / den, 0⟩
  | fuel + 1, places =>
    match onGrid target num den (leading - places) with
    | some d => d
    | none => search target num den leading fuel (places + 1)

/-- The fewest digits that read back as the finite number `mantissa * 2 ^ exponent`. -/
def shortest (mantissa : Nat) (exponent : Int) : Decimal :=
  let (num, den) := ratio mantissa exponent
  search (finite false mantissa exponent) num den (leadingPower num den) 18 0

def dropTrailingZeros : Nat → Decimal → Decimal
  | 0, d => d
  | fuel + 1, d =>
    if d.digits ≠ 0 && d.digits % 10 = 0 then dropTrailingZeros fuel ⟨d.digits / 10, d.power + 1⟩
    else d

def positional (digits : String) (point : Int) : String :=
  if point ≤ 0 then
    "0." ++ String.ofList (List.replicate (-point).toNat '0') ++ digits
  else
    let n := point.toNat
    let cs := digits.toList
    if cs.length ≤ n then digits ++ String.ofList (List.replicate (n - cs.length) '0') ++ ".0"
    else String.ofList (cs.take n) ++ "." ++ String.ofList (cs.drop n)

def withExponent (digits : String) (exponent : Int) : String :=
  let mark := if exponent < 0 then "e-" else "e+"
  let size := toString exponent.natAbs
  let padded := if size.length < 2 then "0" ++ size else size
  match digits.toList with
  | [] => mark ++ padded
  | [d] => String.ofList [d] ++ mark ++ padded
  | d :: rest => String.ofList (d :: '.' :: rest) ++ mark ++ padded

def decimalText (d : Decimal) : String :=
  let d := dropTrailingZeros 400 d
  let digits := toString d.digits
  let point := d.power + digits.length
  if -4 < point && point ≤ 16 then positional digits point else withExponent digits (point - 1)

def text (infinity notANumber : String) : Binary64 → String
  | nan => notANumber
  | infinite negative => (if negative then "-" else "") ++ infinity
  | finite negative mantissa exponent =>
    let body := if mantissa = 0 then "0.0" else decimalText (shortest mantissa exponent)
    (if negative then "-" else "") ++ body

end Reckon.Binary64

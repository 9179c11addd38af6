import Reckon.Binary64.Basic
import Reckon.Scoring.Score

/-!
The logarithm of the logistic function of a scaled integer, rounded to a multiple of 2 ^ -20, a tie
to the even multiple. The function is computed in fixed point with 160 binary places: the
exponential by its series after the argument is halved, the logarithm by the series of the inverse
hyperbolic tangent.
-/

set_option autoImplicit false

namespace Reckon.LogSigmoid

def places : Nat := 160

def one : Nat := 1 <<< places

def mul (a b : Nat) : Nat :=
  (a * b) >>> places

def ofScaled (n scale : Nat) : Nat :=
  (n <<< places) >>> scale

def expSeries (x : Int) : Nat → Int → Int → Int
  | 0, _, _ => 0
  | fuel + 1, index, term =>
    term + expSeries x fuel (index + 1) (-(term * x) / ((index + 1) * one))

def squareTimes : Nat → Nat → Nat
  | 0, x => x
  | n + 1, x => squareTimes n (mul x x)

/-- The exponential of `-x`. Beyond 110 it is below the last place. -/
def expNeg (x : Nat) : Nat :=
  if 110 * one < x then 0
  else squareTimes 9 (expSeries ((x >>> 9 : Nat) : Int) 32 0 one).toNat

def tanhSeries (square : Nat) : Nat → Nat → Nat → Nat
  | 0, _, _ => 0
  | fuel + 1, index, power => power / index + tanhSeries square fuel (index + 2) (mul power square)

def logOnePlus (t : Nat) : Nat :=
  let u := (t <<< places) / (2 * one + t)
  2 * tanhSeries (mul u u) 52 1 u

def toUnits (x : Nat) : Nat :=
  Binary64.roundQuotient x (1 <<< (places - 20))

/-- The exponent, in units of 10 ^ -12, at which a floating-point exponential becomes infinite. -/
def overflowExponent : Nat := 709782712893384

def overflows (n scale : Nat) : Bool :=
  overflowExponent <<< scale < n * Binary64.tenTo 12

/-- The logarithm of the logistic function at `z / 2 ^ scale`. -/
def score (z : Int) (scale : Nat) : Score :=
  let size := ofScaled z.natAbs scale
  let tail := logOnePlus (expNeg size)
  if 0 ≤ z then .finite (-(toUnits tail : Int))
  else if overflows z.natAbs scale then .negInfinity
  else .finite (-(toUnits (size + tail) : Int))

def hundredths (z : Int) (scale : Nat) : Nat :=
  let power := expNeg (ofScaled z.natAbs scale)
  let share := if 0 ≤ z then one else power
  Binary64.roundQuotient (100 * share) (one + power)

/-- The logarithm of a positive floating-point number not above 1, in units of 2 ^ -20. -/
def logUnits (mantissa : Nat) (exponent : Int) : Int :=
  let bits := mantissa.log2
  let fraction := ((mantissa <<< places) >>> bits) - one
  let power := exponent + bits
  let magnitude := power.natAbs * logOnePlus one - logOnePlus fraction
  Int.neg (toUnits magnitude)

def ratioTo (a b : Binary64) : Binary64 :=
  match a, b with
  | .finite _ m₁ e₁, .finite _ m₂ e₂ =>
    if e₁ ≤ e₂ then Binary64.ofRatio false m₁ (m₂ <<< (e₂ - e₁).toNat)
    else Binary64.ofRatio false (m₁ <<< (e₁ - e₂).toNat) m₂
  | _, _ => Binary64.zero

/-- The logarithm of the complement of the logistic function, which is taken from 1 in floating
point: far out its digits are lost, and in the end it is zero. -/
def complementScore (z : Int) (scale : Nat) : Score :=
  let unit := Binary64.ofRatio false 1 1
  let power := expNeg (ofScaled z.natAbs scale)
  if z < 0 && power = 0 then .finite 0
  else
    let exponential :=
      if 0 ≤ z then Binary64.ofRatio false power one else Binary64.ofRatio false one power
    match unit.add (ratioTo unit (unit.add exponential)).neg with
    | .finite _ 0 _ => .negInfinity
    | .finite _ mantissa exponent => .finite (logUnits mantissa exponent)
    | _ => .negInfinity

end Reckon.LogSigmoid

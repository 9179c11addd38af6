/-!
Binary floating point with 53 bits of precision, in exact integer arithmetic. A finite number is a
mantissa times a power of two; `ofRatio` rounds a quotient to the nearest such number, a tie to the
even mantissa, and everything else that rounds goes through it.
-/

set_option autoImplicit false

namespace Reckon

inductive Binary64 where
  /-- The number `mantissa * 2 ^ exponent`, with its sign. -/
  | finite (negative : Bool) (mantissa : Nat) (exponent : Int)
  | infinite (negative : Bool)
  | nan
deriving DecidableEq, Repr

namespace Binary64

def twoTo (n : Nat) : Nat := 1 <<< n

def tenTo (n : Nat) : Nat := Nat.pow 10 n

def leastExponent : Int := -1074

def greatestExponent : Int := 971

def zero : Binary64 := finite false 0 leastExponent

/-- The quotient rounded to the nearest natural number, a half to the even neighbour. -/
def roundQuotient (num den : Nat) : Nat :=
  let quotient := num / den
  let rest := num % den
  if 2 * rest < den then quotient
  else if den < 2 * rest then quotient + 1
  else if quotient % 2 = 0 then quotient else quotient + 1

def scaledQuotient (num den : Nat) (exponent : Int) : Nat :=
  if 0 ≤ exponent then roundQuotient num (den <<< exponent.toNat)
  else roundQuotient (num <<< (-exponent).toNat) den

/-- The exponent at which the quotient has 53 bits, or the least one. -/
def fittingExponent (num den : Nat) : Int :=
  let rough : Int := (num.log2 : Int) - den.log2
  let small :=
    if 0 ≤ rough then num < den <<< rough.toNat else num <<< (-rough).toNat < den
  max leastExponent ((if small then rough - 1 else rough) - 52)

def ofRatio (negative : Bool) (num den : Nat) : Binary64 :=
  if num = 0 then finite negative 0 leastExponent
  else
    let exponent := fittingExponent num den
    let mantissa := scaledQuotient num den exponent
    let (mantissa, exponent) :=
      if mantissa = twoTo 53 then (twoTo 52, exponent + 1) else (mantissa, exponent)
    if greatestExponent < exponent then infinite negative else finite negative mantissa exponent

/-- The nearest number to an integer, unless the integer rounds out of the finite range. -/
def ofInt? (n : Int) : Option Binary64 :=
  match ofRatio (n < 0) n.natAbs 1 with
  | finite negative mantissa exponent => some (finite negative mantissa exponent)
  | _ => none

def ofDecimal (digits places : Nat) : Binary64 :=
  ofRatio false digits (tenTo places)

def ofBits (bits : Nat) : Binary64 :=
  let negative := bits / twoTo 63 % 2 == 1
  let biased : Nat := bits / twoTo 52 % 2048
  let fraction : Nat := bits % twoTo 52
  if biased = 2047 then if fraction = 0 then infinite negative else nan
  else if biased = 0 then finite negative fraction leastExponent
  else finite negative (fraction + twoTo 52) ((biased : Int) - 1075)

def signBit (negative : Bool) : Nat :=
  if negative then twoTo 63 else 0

def toBits : Binary64 → Nat
  | finite negative mantissa exponent =>
    if mantissa < twoTo 52 then signBit negative + mantissa
    else signBit negative + (exponent + 1075).toNat * twoTo 52 + (mantissa - twoTo 52)
  | infinite negative => signBit negative + 2047 * twoTo 52
  | nan => 2047 * twoTo 52 + twoTo 51

def neg : Binary64 → Binary64
  | finite negative mantissa exponent => finite (!negative) mantissa exponent
  | infinite negative => infinite (!negative)
  | nan => nan

def signed (negative : Bool) (n : Nat) : Int :=
  if negative then -(n : Int) else n

def aligned (a : Int × Int) (b : Int × Int) : Int × Int :=
  let least := min a.2 b.2
  (a.1 * twoTo (a.2 - least).toNat, b.1 * twoTo (b.2 - least).toNat)

def ofScaled (m : Int) (exponent : Int) : Binary64 :=
  if 0 ≤ exponent then ofRatio (m < 0) (m.natAbs <<< exponent.toNat) 1
  else ofRatio (m < 0) m.natAbs (1 <<< (-exponent).toNat)

def add : Binary64 → Binary64 → Binary64
  | finite n₁ m₁ e₁, finite n₂ m₂ e₂ =>
    let (a, b) := aligned (signed n₁ m₁, e₁) (signed n₂ m₂, e₂)
    if a + b = 0 then finite (n₁ && n₂) 0 leastExponent else ofScaled (a + b) (min e₁ e₂)
  | infinite n₁, infinite n₂ => if n₁ = n₂ then infinite n₁ else nan
  | infinite n, finite _ _ _ => infinite n
  | finite _ _ _, infinite n => infinite n
  | nan, _ => nan
  | _, nan => nan

/-- The order of the extended reals; no order holds between NaN and anything. -/
def le : Binary64 → Binary64 → Bool
  | finite n₁ m₁ e₁, finite n₂ m₂ e₂ =>
    let (a, b) := aligned (signed n₁ m₁, e₁) (signed n₂ m₂, e₂)
    a ≤ b
  | nan, _ => false
  | _, nan => false
  | infinite true, _ => true
  | _, infinite false => true
  | infinite false, _ => false
  | _, infinite true => false

def abs : Binary64 → Binary64
  | finite _ mantissa exponent => finite false mantissa exponent
  | infinite _ => infinite false
  | nan => nan

def truncate? : Binary64 → Option Int
  | finite negative mantissa exponent =>
    some <| signed negative <|
      if 0 ≤ exponent then mantissa <<< exponent.toNat else mantissa >>> (-exponent).toNat
  | _ => none

end Binary64

end Reckon

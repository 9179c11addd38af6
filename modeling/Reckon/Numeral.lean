import Reckon.Binary64.Basic
import Reckon.Failure

/-!
Numbers as expressions hold them: integers of any size, floating-point numbers, and truth values
where a caller passes one for a number. The order between them is that of the numbers they stand
for.
-/

set_option autoImplicit false

namespace Reckon

inductive Numeral where
  | int (n : Int)
  | float (x : Binary64)
  | truth (b : Bool)
deriving DecidableEq, Repr

namespace Numeral

def int? : Numeral → Option Int
  | int n => some n
  | truth b => some (if b then 1 else 0)
  | float _ => none

def isInt (v : Numeral) : Bool :=
  v.int?.isSome

def leScaled (a b : Int × Int) : Bool :=
  let (x, y) := Binary64.aligned a b
  x ≤ y

/-- The exact order: an integer is not rounded before it is compared. -/
def le (a b : Numeral) : Bool :=
  match a, b with
  | float x, float y => x.le y
  | float (.infinite negative), _ => negative
  | _, float (.infinite negative) => !negative
  | float .nan, _ => false
  | _, float .nan => false
  | float (.finite negative m e), other =>
    match other.int? with
    | some n => leScaled (Binary64.signed negative m, e) (n, 0)
    | none => false
  | other, float (.finite negative m e) =>
    match other.int? with
    | some n => leScaled (n, 0) (Binary64.signed negative m, e)
    | none => false
  | a, b =>
    match a.int?, b.int? with
    | some x, some y => x ≤ y
    | _, _ => false

/-- Neither above nor incomparable: `a` is at most `b` and `b` is not at most `a`. -/
def lt (a b : Numeral) : Bool :=
  a.le b && !b.le a

def eq (a b : Numeral) : Bool :=
  a.le b && b.le a

/-- The nearest floating-point number; an integer too large for one is out of range. -/
def toFloat (v : Numeral) : Except Failure Binary64 :=
  match v with
  | float x => .ok x
  | int n => match Binary64.ofInt? n with
    | some x => .ok x
    | none => .error .outOfRange
  | truth b => .ok (Binary64.ofRatio false (if b then 1 else 0) 1)

def toInt (v : Numeral) : Except Failure Int :=
  match v with
  | int n => .ok n
  | truth b => .ok (if b then 1 else 0)
  | float x => match x.truncate? with
    | some n => .ok n
    | none => .error .outOfRange

def neg : Numeral → Numeral
  | int n => int (-n)
  | truth b => int (if b then -1 else 0)
  | float x => float x.neg

/-- Integers add exactly; with a floating-point number the sum is rounded. -/
def add (a b : Numeral) : Except Failure Numeral :=
  match a.int?, b.int? with
  | some x, some y => .ok (int (x + y))
  | _, _ => do return float ((← a.toFloat).add (← b.toFloat))

end Numeral

end Reckon

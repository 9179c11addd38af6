import Reckon.Binary64.Basic
import Reckon.Text.Blank
import Reckon.Text.Digit
import Reckon.Text.LetterCase

/-!
Numbers as they are typed: decimal integers, and floating-point numbers with a fraction or an
exponent. White space around a number and single underscores between its digits are allowed.
-/

set_option autoImplicit false

namespace Reckon.Text

/-- The digits of a text that has nothing else but single underscores between them. -/
def groupedDigits : List Char → Option (List Char)
  | [] => none
  | [c] => if isDigit c then some [c] else none
  | c :: '_' :: rest => if isDigit c then (groupedDigits rest).map (c :: ·) else none
  | c :: rest => if isDigit c then (groupedDigits rest).map (c :: ·) else none

def splitSign : List Char → Bool × List Char
  | '-' :: rest => (true, rest)
  | '+' :: rest => (false, rest)
  | cs => (false, cs)

def digitLimit : Nat := 4300

def readInteger? (s : String) : Option Int :=
  let (negative, body) := splitSign (trim s.toList)
  match groupedDigits body with
  | some ds =>
    if ds.length ≤ digitLimit then some (Binary64.signed negative (readNat ds)) else none
  | none => none

def optionalDigits (cs : List Char) : Option (List Char) :=
  if cs.isEmpty then some [] else groupedDigits cs

def isExponentMark (c : Char) : Bool :=
  c == 'e' || c == 'E'

def readExponent? : List Char → Option Int
  | [] => some 0
  | _ :: cs =>
    let (negative, body) := splitSign cs
    (groupedDigits body).map fun ds => Binary64.signed negative (readNat ds)

/-- The number nearest to `digits * 10 ^ power`; powers far beyond the range are not computed. -/
def nearestDecimal (negative : Bool) (digits : List Char) (power : Int) : Binary64 :=
  let n := readNat digits
  if n = 0 then .finite negative 0 Binary64.leastExponent
  else if 400 < power then .infinite negative
  else if power < -400 - digits.length then .finite negative 0 Binary64.leastExponent
  else if 0 ≤ power then Binary64.ofRatio negative (n * Binary64.tenTo power.toNat) 1
  else Binary64.ofRatio negative n (Binary64.tenTo (-power).toNat)

def readFloat? (s : String) : Option Binary64 :=
  let (negative, body) := splitSign (trim s.toList)
  let word := String.ofList (lower body)
  if word == "inf" || word == "infinity" then some (.infinite negative)
  else if word == "nan" then some .nan
  else do
    let mantissa := body.takeWhile fun c => !isExponentMark c
    let exponent ← readExponent? (body.dropWhile fun c => !isExponentMark c)
    let whole ← optionalDigits (mantissa.takeWhile (· ≠ '.'))
    let fraction ← optionalDigits ((mantissa.dropWhile (· ≠ '.')).drop 1)
    if whole.isEmpty && fraction.isEmpty then none
    else some (nearestDecimal negative (whole ++ fraction) (exponent - fraction.length))

end Reckon.Text

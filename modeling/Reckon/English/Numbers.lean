import Reckon.English.Readings
import Reckon.English.Vocabulary

/-!
Cardinal numbers: words, digits, decimals and signs. A number in words is built from units, tens and
powers of ten by multiplication and addition; the grain of its last word decides what may be added
to it.
-/

set_option autoImplicit false

namespace Reckon.English.Numbers

def wordNumber (value : Int) (grain : Int) : Value :=
  .number { value := .int value, grain := some grain, fromWords := true }

def readWord (word : String) : Option Int :=
  lookUp (units ++ tens) word

def unit (readings : Readings) : List (Finding Value) → Produced
  | [.text m] =>
    let word := lowered m.content
    if word = "zero" then made (wordNumber 0 0)
    else match readings.number word with
      | some n => made (wordNumber n (if 10 ≤ n then 1 else 0))
      | none => declined
  | _ => declined

/-- The word as readers know it: "fourty" is another spelling of "forty". -/
def respelled (word : String) : String :=
  if word = "fourty" then "forty" else word

def ten (readings : Readings) : List (Finding Value) → Produced
  | [.text m] =>
    match readings.number (respelled (lowered m.content)) with
    | some n => made (wordNumber n 1)
    | none => declined
  | _ => declined

def power : List (Finding Value) → Produced
  | [.text m] => do
    let exponent ← entryOf powers (lowered m.content)
    made (.number
      { value := .int (Binary64.tenTo exponent), grain := some exponent,
        multipliable := true, fromWords := true })
  | _ => declined

def digits : List (Finding Value) → Produced
  | [.text m] => do made (.number { value := .int (← readInteger m.content) })
  | _ => declined

/-- The number of a decimal literal, whose digits may begin with the point. -/
def readDecimal (cs : List Char) : Binary64 :=
  Binary64.ofDecimal (Text.readNat cs) (Text.digitCount (cs.dropWhile (· != '.')))

def decimal : List (Finding Value) → Produced
  | [.text m] => made (.number { value := .float (readDecimal m.content) })
  | _ => declined

def isPositive (n : NumberValue) : Bool :=
  (Numeral.int 0).lt n.value

def isNonNegative (n : NumberValue) : Bool :=
  (Numeral.int 0).le n.value

def negate : List (Finding Value) → Produced
  | [.text _, .value (.number n)] =>
    if n.value.le (.int 0) then declined else made (.number { value := n.value.neg })
  | _ => declined

def isWordNumber (n : NumberValue) : Bool :=
  n.fromWords && n.value.isInt && isNonNegative n

/-- A factor below a thousand scales a power of ten of a larger grain. -/
def scale (a p : NumberValue) : Option NumberValue :=
  match a.value.int?, p.value.int?, a.grain, p.grain with
  | some factor, some power, some small, some large =>
    if 1 ≤ factor && factor < 1000 && small < large then
      some { value := .int (factor * power), grain := p.grain, fromWords := true }
    else none
  | _, _, _, _ => none

def multiply : List (Finding Value) → Produced
  | [.value (.number a), .value (.number p)] => .ok ((scale a p).map .number)
  | _ => declined

/-- A number that ends in a power of ten takes a smaller number after it. -/
def join (left right : NumberValue) : Option NumberValue :=
  match left.value.int?, right.value.int?, left.grain with
  | some a, some b, some grain =>
    let unit : Int := Binary64.tenTo grain.toNat
    if 1 ≤ grain && a % unit = 0 && 0 < b && b < unit then
      some { value := .int (a + b), grain := right.grain, fromWords := true }
    else none
  | _, _, _ => none

def sum : List (Finding Value) → Produced
  | [.value (.number left), .text _, .value (.number right)] => .ok ((join left right).map .number)
  | _ => declined

/-- Neither a digit nor a digit and a separator come before. -/
def freshDigits : Pattern :=
  .seq (.notBehind [.digit]) (.notBehind [.digit, .either (.exactly '.') (.exactly ',')])

def unitWord : Pattern := .wholeWord ("zero" :: units.map (·.1))

def tenWord : Pattern := .wholeWord (tens.map (·.1))

def powerWord : Pattern := .wholeWord (powers.map (·.1))

def pointAndDigit : Pattern := .seq (.char '.') .digit

def groupedDigits : Pattern :=
  .sequence
    [freshDigits, .repeated .digit 1 (some 3),
      .some (.seq (.char ',') (.exactly 3 .digit)),
      .notAhead (.anyOf [.digit, .seq (.char ',') .digit, pointAndDigit])]

def plainDigits : Pattern :=
  .sequence
    [freshDigits, .some .digit,
      .notAhead (.anyOf
        [.digit, .sequence [.char ',', .exactly 3 .digit, .notAhead .digit], pointAndDigit]),
      .notAhead (.anyOf
        [.seq (.literal "st") .edge, .seq (.literal "nd") .edge, .seq (.literal "rd") .edge,
          .seq (.literal "th") .edge])]

def decimalDigits : Pattern :=
  .sequence
    [freshDigits, .many .digit, .char '.', .some .digit, .notAhead (.alt .digit pointAndDigit)]

def minus : Pattern :=
  .anyOf
    [.seq (.notBehind [.word]) (.char '-'), .wholeWord ["minus"], .wholeWord ["negative"]]

/-- What may stand between the parts of a sum: a hyphen, the word "and", or nothing. -/
def joint : Pattern :=
  .optional (.alt (.char '-') (.wholeWord ["and"]))

def rules (readings : Readings) : List (Rule Value) :=
  [ ⟨"number: zero..nineteen", [.text unitWord], unit readings⟩,
    ⟨"number: tens", [.text tenWord], ten readings⟩,
    ⟨"number: powers of ten", [.text powerWord], power⟩,
    ⟨"number: comma grouped digits", [.text groupedDigits], digits⟩,
    ⟨"number: digits", [.text plainDigits], digits⟩,
    ⟨"number: decimal", [.text decimalDigits], decimal⟩,
    ⟨"number: negative", [.text minus, Test.number isPositive], negate⟩,
    ⟨"number: multiply", [Test.number isWordNumber, Test.number (·.multipliable)], multiply⟩,
    ⟨"number: sum", [Test.number isWordNumber, .text joint, Test.number isWordNumber], sum⟩ ]

end Reckon.English.Numbers

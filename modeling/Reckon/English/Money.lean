import Reckon.English.Numbers

/-!
Amounts of money. In an amount after a currency symbol, a point or comma with one, two, or more than
three digits after it at the end is the decimal separator; all other separators are dropped.
-/

set_option autoImplicit false

namespace Reckon.English.Money

def currency : List (Finding Value) → Produced
  | [.text m] =>
    match currencyCode? m.content with
    | some code => made (.moneyUnit { code })
    | none => declined
  | _ => declined

def isSeparator (c : Char) : Bool :=
  c == '.' || c == ','

def decimalPlaces (cs : List Char) : Nat :=
  if cs.any isSeparator then
    let places := (cs.reverse.takeWhile fun c => !isSeparator c).length
    if places = 0 || places = 3 then 0 else places
  else 0

def readAmount (cs : List Char) : Binary64 :=
  let amount := cs.filter fun c => Text.isDigit c || isSeparator c
  Binary64.ofDecimal (Text.readNat amount) (decimalPlaces amount)

def readPrice (cs : List Char) : Option Price :=
  some { amount := readAmount cs, currency := some (cs.take 1) }

/-- The code of a currency, or its text if it has no code here. -/
def priceUnit (p : Price) : Option String :=
  (currencyCode? (p.currency.getD [])).or (p.currency.map String.ofList)

def price (readings : Readings) : List (Finding Value) → Produced
  | [.text m] =>
    match readings.price m.content with
    | some p => made (.money { value := .float p.amount, unit := priceUnit p })
    | none => declined
  | _ => declined

def amountThenCurrency : List (Finding Value) → Produced
  | [.value (.number n), .value (.moneyUnit u)] => do
    made (.money { value := .float (← n.value.toFloat), unit := some u.code })
  | _ => declined

def codeThenAmount : List (Finding Value) → Produced
  | [.text m, .value (.number n)] => do
    made (.money { value := .float (← n.value.toFloat), unit := currencyCode? m.content })
  | _ => declined

def approximately : List (Finding Value) → Produced
  | [.text _, .value (.money a)] =>
    made (.money { value := a.value, unit := a.unit, precision := .approximate })
  | _ => declined

def plural (word : String) : Pattern :=
  .seq (.literal word) (.optional (.literal "s"))

def symbol : Pattern := .charIn currencySymbols

def currencyWord : Pattern :=
  .alt symbol
    (.whole (.anyOf
      [plural "dollar", plural "buck", plural "euro", plural "pound", plural "cent", .literal "yen",
        .literal "usd", .literal "eur", .literal "gbp", .literal "jpy"]))

def fraction : Pattern :=
  .optional (.seq (.char '.') (.some .digit))

def symbolAmount : Pattern :=
  .alt
    (.sequence
      [symbol, .optional .blank, .repeated .digit 1 (some 3),
        .many (.seq (.char ',') (.exactly 3 .digit)), fraction,
        .notAhead (.one (.either .digit (.exactly ',')))])
    (.sequence [symbol, .optional .blank, .some .digit, fraction, .notAhead .digit])

def codeWord : Pattern := .wholeWord ["usd", "eur", "gbp", "jpy"]

def rules (readings : Readings) : List (Rule Value) :=
  [ ⟨"money: currency", [.text currencyWord], currency⟩,
    ⟨"money: symbol amount", [.text symbolAmount], price readings⟩,
    ⟨"money: amount currency", [Test.number Numbers.isNonNegative, Test.moneyUnit],
      amountThenCurrency⟩,
    ⟨"money: code amount", [.text codeWord, Test.number Numbers.isNonNegative], codeThenAmount⟩,
    ⟨"money: approximately", [.text approximation, Test.exact .amountOfMoney], approximately⟩ ]

end Reckon.English.Money

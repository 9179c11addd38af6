import Reckon.Forest.Rule
import Reckon.Pattern.Build
import Reckon.Text.LetterCase
import Reckon.Value.Basic

/-!
English words for numbers, dates and units, and the tests on values that the rules share.
-/

set_option autoImplicit false

namespace Reckon.English

abbrev Produced := Except Failure (Option Value)

def declined : Produced := .ok none

def made (v : Value) : Produced := .ok (some v)

def lowered (cs : List Char) : String :=
  String.ofList (Text.lower cs)

def lookUp {α : Type} (table : List (String × α)) (word : String) : Option α :=
  (table.find? (·.1 == word)).map (·.2)

/-- The entry of a word that the table has to list. -/
def entryOf {α : Type} (table : List (String × α)) (word : String) : Except Failure α :=
  match lookUp table word with
  | some a => .ok a
  | none => .error .unlistedWord

def digitLimit : Nat := 4300

def readInteger (cs : List Char) : Except Failure Int :=
  if digitLimit < Text.digitCount cs then .error .outOfRange else .ok (Text.readNat cs)

def units : List (String × Int) :=
  [("one", 1), ("two", 2), ("three", 3), ("four", 4), ("five", 5), ("six", 6), ("seven", 7),
    ("eight", 8), ("nine", 9), ("ten", 10), ("eleven", 11), ("twelve", 12), ("thirteen", 13),
    ("fourteen", 14), ("fifteen", 15), ("sixteen", 16), ("seventeen", 17), ("eighteen", 18),
    ("nineteen", 19)]

def tens : List (String × Int) :=
  [("twenty", 20), ("thirty", 30), ("forty", 40), ("fourty", 40), ("fifty", 50), ("sixty", 60),
    ("seventy", 70), ("eighty", 80), ("ninety", 90)]

def powers : List (String × Nat) :=
  [("hundred", 2), ("thousand", 3), ("million", 6), ("billion", 9)]

def ordinals : List (String × Int) :=
  [("first", 1), ("second", 2), ("third", 3), ("fourth", 4), ("fifth", 5), ("sixth", 6),
    ("seventh", 7), ("eighth", 8), ("ninth", 9), ("tenth", 10), ("eleventh", 11), ("twelfth", 12),
    ("thirteenth", 13), ("fourteenth", 14), ("fifteenth", 15), ("sixteenth", 16),
    ("seventeenth", 17), ("eighteenth", 18), ("nineteenth", 19), ("twentieth", 20),
    ("thirtieth", 30), ("fortieth", 40), ("fiftieth", 50), ("sixtieth", 60), ("seventieth", 70),
    ("eightieth", 80), ("ninetieth", 90), ("hundredth", 100)]

def months : List (String × Int) :=
  [("jan", 1), ("feb", 2), ("mar", 3), ("apr", 4), ("may", 5), ("jun", 6), ("jul", 7), ("aug", 8),
    ("sep", 9), ("oct", 10), ("nov", 11), ("dec", 12)]

def monthWords : List String :=
  ["january", "jan", "february", "feb", "march", "mar", "april", "apr", "may", "june", "jun",
    "july", "jul", "august", "aug", "september", "sept", "sep", "october", "oct", "november",
    "nov", "december", "dec"]

def weekdayWords : List String :=
  ["monday", "tuesday", "tues", "wednesday", "thursday", "thurs", "friday", "saturday", "sunday"]

def grainPrefixes : List (String × Grain) :=
  [("se", .second), ("mi", .minute), ("ho", .hour), ("hr", .hour), ("da", .day), ("we", .week),
    ("mo", .month), ("ye", .year), ("yr", .year)]

def currencies : List (String × String) :=
  [("$", "$"), ("dollar", "$"), ("buck", "$"), ("usd", "USD"), ("€", "EUR"), ("euro", "EUR"),
    ("eur", "EUR"), ("£", "GBP"), ("pound", "GBP"), ("gbp", "GBP"), ("¥", "JPY"), ("yen", "JPY"),
    ("jpy", "JPY"), ("cent", "cent")]

def currencySymbols : List Char := ['$', '€', '£', '¥']

def directions : List (String × Direction) :=
  [("this", .this), ("current", .this), ("next", .next), ("coming", .next), ("upcoming", .next),
    ("last", .last), ("past", .last), ("previous", .last)]

/-- The code of a currency from its symbol, code or name, the name perhaps in the plural. -/
def currencyCode? (cs : List Char) : Option String :=
  let word := Text.lower (Text.trim cs)
  match lookUp currencies (String.ofList word) with
  | some code => some code
  | none =>
    if word.getLast? = some 's' then lookUp currencies (String.ofList word.dropLast) else none

def approximation : Pattern :=
  .alt (.char '~')
    (.wholeWord ["about", "around", "approximately", "roughly", "nearly", "almost"])

namespace Test

/-- The values of a dimension that pass a test. -/
def of (d : Dimension) (test : d.Holds → Bool) : Item Value :=
  .holding fun v => (v.part? d).any test

abbrev number (test : NumberValue → Bool) : Item Value := of .number test

abbrev ordinal (test : OrdinalValue → Bool) : Item Value := of .ordinal test

abbrev temperature (test : TemperatureValue → Bool) : Item Value := of .temperature test

abbrev money (test : MoneyValue → Bool) : Item Value := of .amountOfMoney test

abbrev moneyUnit : Item Value := of .moneyUnit fun _ => true

abbrev duration (test : DurationValue → Bool) : Item Value := of .duration test

abbrev timeGrain : Item Value := of .timeGrain fun _ => true

abbrev datetime (test : DatetimeValue → Bool) : Item Value := of .datetime test

abbrev exact (d : Dimension) : Item Value :=
  of d fun held => (Value.of d held).precision? != some .approximate

def any {α : Type} (_ : α) : Bool := true

end Test

def isIntBetween (low high : Int) (n : NumberValue) : Bool :=
  match n.value.int? with
  | some i => low ≤ i && i ≤ high
  | none => false

end Reckon.English

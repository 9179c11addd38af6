import Reckon.Clock.IsoText
import Reckon.Kind

/-!
Outputs: what expressions mean once they are resolved.
-/

set_option autoImplicit false

namespace Reckon

inductive Output where
  | integer (value : Int)
  | float (value : Binary64)
  | ordinal (value : Int)
  | percentage (value : Binary64)
  | temperature (value : Binary64) (unit : Option String)
  | money (value : Binary64) (precision : Precision) (unit : Option String)
  | duration (period : Period) (precision : Precision)
  | datetime (moment : Moment) (grain : Grain) (precision : Precision) (latent : Bool)
  | interval (start stop : Moment) (grain : Grain) (precision : Precision) (latent : Bool)
deriving DecidableEq, Repr

inductive OutputType where
  | integer | float | ordinal | percentage | temperature | money | duration | datetime | interval
deriving DecidableEq, Repr

namespace OutputType

def all : List OutputType :=
  [integer, float, ordinal, percentage, temperature, money, duration, datetime, interval]

def name : OutputType → String
  | integer => "IntegerOutput"
  | float => "FloatOutput"
  | ordinal => "OrdinalOutput"
  | percentage => "PercentageOutput"
  | temperature => "TemperatureOutput"
  | money => "AmountOfMoneyOutput"
  | duration => "DurationOutput"
  | datetime => "DatetimeOutput"
  | interval => "DatetimeIntervalOutput"

def ofName? (s : String) : Option OutputType :=
  all.find? (·.name == s)

end OutputType

namespace Output

def type : Output → OutputType
  | integer _ => .integer
  | float _ => .float
  | ordinal _ => .ordinal
  | percentage _ => .percentage
  | temperature _ _ => .temperature
  | money _ _ _ => .money
  | duration _ _ => .duration
  | datetime _ _ _ _ => .datetime
  | interval _ _ _ _ _ => .interval

def kind : Output → Kind
  | integer _ | float _ => .number
  | ordinal _ => .ordinal
  | percentage _ => .percentage
  | temperature _ _ => .temperature
  | money _ _ _ => .amountOfMoney
  | duration _ _ => .duration
  | datetime _ _ _ _ | interval _ _ _ _ _ => .datetime

def into (o : Output) (wanted : OutputType) : Except Failure Output :=
  if o.type = wanted then .ok o else .error (.coercion (.otherOutput o.type.name wanted.name))

end Output

/-- Counts by unit, where a later pair of a grain replaces the count of an earlier one. -/
def Period.byUnit : Period → List (Grain × Int)
  | [] => []
  | (g, n) :: rest =>
    let later := Period.byUnit rest
    match later.lookup g with
    | some m => (g, m) :: later.filter (·.1 != g)
    | none => (g, n) :: later

end Reckon

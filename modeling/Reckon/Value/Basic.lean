import Reckon.Numeral
import Reckon.Value.Form

/-!
The values that the nodes of a parse carry, each of one dimension. Grains of time and units of money
are parts of larger expressions and are never reported by themselves.
-/

set_option autoImplicit false

namespace Reckon

inductive Dimension where
  | number | ordinal | percentage | temperature | amountOfMoney | duration | datetime
  | timeGrain | moneyUnit
deriving DecidableEq, Repr

namespace Dimension

def all : List Dimension :=
  [number, ordinal, percentage, temperature, amountOfMoney, duration, datetime, timeGrain,
    moneyUnit]

def label : Dimension → String
  | number => "number"
  | ordinal => "ordinal"
  | percentage => "percentage"
  | temperature => "temperature"
  | amountOfMoney => "amount_of_money"
  | duration => "duration"
  | datetime => "datetime"
  | timeGrain => "time_grain"
  | moneyUnit => "money_unit"

def ofLabel? (s : String) : Option Dimension :=
  all.find? (·.label == s)

end Dimension

inductive Precision where
  | exact | approximate
deriving DecidableEq, Repr

namespace Precision

def label : Precision → String
  | exact => "exact"
  | approximate => "approximate"

def ofLabel? (s : String) : Option Precision :=
  [exact, approximate].find? (·.label == s)

end Precision

/-- A cardinal number. Of a number in words, `grain` is the power of ten of its last word; a bare
power of ten is `multipliable`. -/
structure NumberValue where
  value : Numeral
  grain : Option Int := none
  multipliable : Bool := false
  fromWords : Bool := false
  latent : Bool := false
deriving DecidableEq, Repr

structure OrdinalValue where
  value : Numeral
  latent : Bool := false
deriving DecidableEq, Repr

structure PercentageValue where
  value : Numeral
  latent : Bool := false
deriving DecidableEq, Repr

structure TemperatureValue where
  value : Numeral
  unit : Option String := none
  latent : Bool := false
deriving DecidableEq, Repr

structure MoneyValue where
  value : Numeral
  unit : Option String := none
  precision : Precision := .exact
  latent : Bool := false
deriving DecidableEq, Repr

structure DurationValue where
  period : Period
  precision : Precision := .exact
  latent : Bool := false
deriving DecidableEq, Repr

structure DatetimeValue where
  form : TimeForm
  latent : Bool := false
  precision : Precision := .exact
deriving DecidableEq, Repr

structure TimeGrainValue where
  grain : Grain
  latent : Bool := false
deriving DecidableEq, Repr

structure MoneyUnitValue where
  code : String
  latent : Bool := false
deriving DecidableEq, Repr

inductive Value where
  | number (v : NumberValue)
  | ordinal (v : OrdinalValue)
  | percentage (v : PercentageValue)
  | temperature (v : TemperatureValue)
  | money (v : MoneyValue)
  | duration (v : DurationValue)
  | datetime (v : DatetimeValue)
  | timeGrain (v : TimeGrainValue)
  | moneyUnit (v : MoneyUnitValue)
  /-- A value of a type with no reading, which may claim a dimension. -/
  | unknown (typeName : String) (dimension : Option Dimension)
deriving DecidableEq, Repr

/-- What the values of a dimension hold. -/
abbrev Dimension.Holds : Dimension → Type
  | number => NumberValue
  | ordinal => OrdinalValue
  | percentage => PercentageValue
  | temperature => TemperatureValue
  | amountOfMoney => MoneyValue
  | duration => DurationValue
  | datetime => DatetimeValue
  | timeGrain => TimeGrainValue
  | moneyUnit => MoneyUnitValue

namespace Value

abbrev of : (d : Dimension) → d.Holds → Value
  | .number => number
  | .ordinal => ordinal
  | .percentage => percentage
  | .temperature => temperature
  | .amountOfMoney => money
  | .duration => duration
  | .datetime => datetime
  | .timeGrain => timeGrain
  | .moneyUnit => moneyUnit

def part? : (d : Dimension) → Value → Option d.Holds
  | .number, number v => some v
  | .ordinal, ordinal v => some v
  | .percentage, percentage v => some v
  | .temperature, temperature v => some v
  | .amountOfMoney, money v => some v
  | .duration, duration v => some v
  | .datetime, datetime v => some v
  | .timeGrain, timeGrain v => some v
  | .moneyUnit, moneyUnit v => some v
  | _, _ => none

theorem part?_eq_some {d : Dimension} {v : Value} {held : d.Holds} :
    v.part? d = some held ↔ v = of d held := by
  cases d <;> cases v <;> simp [part?]

def dimension? : Value → Option Dimension
  | number _ => some .number
  | ordinal _ => some .ordinal
  | percentage _ => some .percentage
  | temperature _ => some .temperature
  | money _ => some .amountOfMoney
  | duration _ => some .duration
  | datetime _ => some .datetime
  | timeGrain _ => some .timeGrain
  | moneyUnit _ => some .moneyUnit
  | unknown _ dimension => dimension

theorem dimension?_of {d : Dimension} (held : d.Holds) : (of d held).dimension? = some d := by
  cases d <;> rfl

def typeName : Value → String
  | number _ => "NumberValue"
  | ordinal _ => "OrdinalValue"
  | percentage _ => "PercentageValue"
  | temperature _ => "TemperatureValue"
  | money _ => "AmountOfMoneyValue"
  | duration _ => "DurationValue"
  | datetime _ => "DatetimeValue"
  | timeGrain _ => "TimeGrainValue"
  | moneyUnit _ => "MoneyUnitValue"
  | unknown name _ => name

/-- A latent value is a reading that stands only where nothing plainer does. -/
def latent : Value → Bool
  | number v => v.latent
  | ordinal v => v.latent
  | percentage v => v.latent
  | temperature v => v.latent
  | money v => v.latent
  | duration v => v.latent
  | datetime v => v.latent
  | timeGrain v => v.latent
  | moneyUnit v => v.latent
  | unknown _ _ => false

def numeral? : Value → Option Numeral
  | number v => some v.value
  | ordinal v => some v.value
  | percentage v => some v.value
  | temperature v => some v.value
  | money v => some v.value
  | duration _ | datetime _ | timeGrain _ | moneyUnit _ | unknown _ _ => none

def precision? : Value → Option Precision
  | money v => some v.precision
  | duration v => some v.precision
  | datetime v => some v.precision
  | number _ | ordinal _ | percentage _ | temperature _ | timeGrain _ | moneyUnit _
  | unknown _ _ => none

end Value

end Reckon

import Reckon.English.Datetimes
import Reckon.English.Measures
import Reckon.English.Money
import Reckon.English.Ordinals

/-!
The English rule set, for any readings of the words, amounts and dates that the grammar leaves to
others, and with the usual ones.
-/

set_option autoImplicit false

namespace Reckon.English

def rulesWith (readings : Readings) : List (Rule Value) :=
  Numbers.rules readings ++ Ordinals.rules readings ++ Measures.temperatureRules ++
    Measures.percentageRules ++ Money.rules readings ++ Durations.rules ++ Datetimes.rules readings

def ruleSetWith (readings : Readings) : RuleSet Value :=
  { rules := rulesWith readings }

def usualReadings : Readings :=
  { number := Numbers.readWord
    ordinal := Ordinals.readWord
    price := Money.readPrice
    date := Datetimes.readSlashDate }

def ruleSet : RuleSet Value :=
  ruleSetWith usualReadings

end Reckon.English

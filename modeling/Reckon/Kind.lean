import Reckon.Text.LetterCase
import Reckon.Value.Basic

/-!
Kinds of output. Each kind reports the values of one dimension; the dimensions that are only parts
of larger expressions have no kind.
-/

set_option autoImplicit false

namespace Reckon

inductive Kind where
  | number | ordinal | percentage | temperature | amountOfMoney | duration | datetime
deriving DecidableEq, Repr

namespace Kind

/-- The default order of priority: kinds with a mark of their own first, bare numbers last. -/
def all : List Kind :=
  [amountOfMoney, percentage, temperature, datetime, duration, ordinal, number]

def label : Kind → String
  | number => "Number"
  | ordinal => "Ordinal"
  | percentage => "Percentage"
  | temperature => "Temperature"
  | amountOfMoney => "AmountOfMoney"
  | duration => "Duration"
  | datetime => "Datetime"

def dimension : Kind → Dimension
  | number => .number
  | ordinal => .ordinal
  | percentage => .percentage
  | temperature => .temperature
  | amountOfMoney => .amountOfMoney
  | duration => .duration
  | datetime => .datetime

def ofDimension? : Dimension → Option Kind
  | .number => some number
  | .ordinal => some ordinal
  | .percentage => some percentage
  | .temperature => some temperature
  | .amountOfMoney => some amountOfMoney
  | .duration => some duration
  | .datetime => some datetime
  | .timeGrain | .moneyUnit => none

theorem of_dimension?_eq_some_iff (d : Dimension) (k : Kind) :
    ofDimension? d = some k ↔ d = k.dimension := by
  cases d <;> cases k <;> simp [ofDimension?, dimension]

def aliases : List (String × Kind) :=
  [("time", datetime), ("date", datetime), ("temporal", datetime)]

/-- The name without hyphens and underscores, in lower case. -/
def nameKey (name : String) : List Char :=
  Text.lower ((Text.trim name.toList).filter fun c => c != '-' && c != '_')

/-- Reads the name of a kind, in any case and with any hyphens or underscores in it. -/
def ofName (name : String) : Except Failure Kind :=
  let key := nameKey name
  match all.find? fun kind => Text.lower kind.label.toList == key with
  | some kind => .ok kind
  | none =>
    match aliases.find? fun (word, _) => word.toList == key with
    | some (_, kind) => .ok kind
    | none => .error (.unknownKind name)

end Kind

end Reckon

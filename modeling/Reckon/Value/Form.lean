import Reckon.Calendar.Grain

/-!
Time forms: what an expression says about a moment or a range of time before it is grounded against
a context.
-/

set_option autoImplicit false

namespace Reckon

inductive Direction where
  | this | next | last
deriving DecidableEq, Repr

namespace Direction

def label : Direction → String
  | this => "this"
  | next => "next"
  | last => "last"

def ofLabel? (s : String) : Option Direction :=
  [this, next, last].find? (·.label == s)

end Direction

/-- Any of year, month and day, and perhaps a weekday, counted from 0 for Monday. -/
structure PartialDate where
  year : Option Int := none
  month : Option Int := none
  day : Option Int := none
  weekday : Option Int := none
deriving DecidableEq, Repr

/-- The grain of the smallest part that can be told: the day, else the month, else the year. -/
def PartialDate.grain (d : PartialDate) : Grain :=
  if d.day.isSome then .day else if d.month.isSome then .month else .year

/-- A time of day; an ambiguous one may also mean twelve hours later. -/
structure ClockTime where
  hour : Int
  minute : Int := 0
  ambiguous : Bool := false
deriving DecidableEq, Repr

def ClockTime.grain (t : ClockTime) : Grain :=
  if t.minute = 0 then .hour else .minute

inductive TimeForm where
  | now
  /-- So many whole grains away from the current one. -/
  | relative (grain : Grain) (offset : Int)
  | dayOfWeek (weekday : Int) (direction : Option Direction)
  | calendar (date : PartialDate)
  | timeOfDay (time : ClockTime)
  /-- A time on the day of another form. -/
  | timed (date : TimeForm) (time : ClockTime)
  /-- A period away from the reference, ahead or back as the sign tells. -/
  | shift (period : Period) (sign : Int)
  | interval (start stop : TimeForm)
  /-- A form of a type that cannot be grounded. -/
  | unknown (typeName : String)
deriving DecidableEq, Repr, Inhabited

end Reckon

import Reckon.Calendar.Date

/-!
Readings of a wall clock: a date and a time of day, counted in microseconds since the start of year
1.
-/

set_option autoImplicit false

namespace Reckon

/-- A reading of a wall clock, in microseconds since the start of year 1. -/
structure LocalTime where
  ticks : Int
deriving DecidableEq, Repr, Inhabited

namespace LocalTime

def ticksPerSecond : Int := 1000000

def ticksPerMinute : Int := 60 * ticksPerSecond

def ticksPerHour : Int := 60 * ticksPerMinute

def ticksPerDay : Int := 24 * ticksPerHour

def make (date : Date) (hour minute second microsecond : Int) : LocalTime :=
  ⟨date.dayNumber * ticksPerDay + hour * ticksPerHour + minute * ticksPerMinute +
    second * ticksPerSecond + microsecond⟩

def midnight (date : Date) : LocalTime :=
  ⟨date.dayNumber * ticksPerDay⟩

def dayNumber (t : LocalTime) : Int :=
  t.ticks / ticksPerDay

def date (t : LocalTime) : Date :=
  Date.ofDayNumber t.dayNumber

def weekday (t : LocalTime) : Int :=
  Date.weekdayOf t.dayNumber

def hour (t : LocalTime) : Int :=
  t.ticks % ticksPerDay / ticksPerHour

def minute (t : LocalTime) : Int :=
  t.ticks % ticksPerHour / ticksPerMinute

def second (t : LocalTime) : Int :=
  t.ticks % ticksPerMinute / ticksPerSecond

def microsecond (t : LocalTime) : Int :=
  t.ticks % ticksPerSecond

def isRepresentable (t : LocalTime) : Bool :=
  0 ≤ t.ticks && t.ticks < Date.endOfDays * ticksPerDay

def isTimeOfDay (hour minute second microsecond : Int) : Bool :=
  0 ≤ hour && hour < 24 && 0 ≤ minute && minute < 60 && 0 ≤ second && second < 60 &&
    0 ≤ microsecond && microsecond < 1000000

/-- The reading given by year, month, day, hour, minute, second and microsecond, of which the time
may be left out from the end. -/
def ofFields? : List Int → Option LocalTime
  | year :: month :: day :: time =>
    let date : Date := ⟨year, month, day⟩
    let hour := time.getD 0 0
    let minute := time.getD 1 0
    let second := time.getD 2 0
    let microsecond := time.getD 3 0
    if date.isValid && isTimeOfDay hour minute second microsecond then
      some (make date hour minute second microsecond)
    else none
  | _ => none

def floorTo (unit : Int) (t : LocalTime) : LocalTime :=
  ⟨t.ticks - t.ticks % unit⟩

end LocalTime

end Reckon

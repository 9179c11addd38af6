/-!
Dates of the Gregorian calendar, extended to all years. A date is counted by its day number, the
number of days since 1 January of year 1; `ofDayNumber` finds the date of a day number. Dates that
can be represented lie in years 1 to 9999.
-/

set_option autoImplicit false

namespace Reckon

structure Date where
  year : Int
  month : Int
  day : Int
deriving DecidableEq, Repr, Inhabited

namespace Date

def isLeap (year : Int) : Bool :=
  year % 4 == 0 && (year % 100 != 0 || year % 400 == 0)

def monthLengths (year : Int) : List Int :=
  [31, if isLeap year then 29 else 28, 31, 30, 31, 30, 31, 31, 30, 31, 30, 31]

def monthLength (year month : Int) : Int :=
  (monthLengths year).getD (month - 1).toNat 31

def daysBeforeYear (year : Int) : Int :=
  let past := year - 1
  365 * past + past / 4 - past / 100 + past / 400

def daysBeforeMonth (year month : Int) : Int :=
  ((monthLengths year).take (month - 1).toNat).foldr (· + ·) 0

def dayNumber (d : Date) : Int :=
  daysBeforeYear d.year + daysBeforeMonth d.year d.month + (d.day - 1)

/-- The year that holds a day: an estimate by the mean length of a year, off by one at the most. -/
def yearOfDay (n : Int) : Int :=
  let guess := n * 400 / 146097 + 1
  if n < daysBeforeYear guess then guess - 1
  else if daysBeforeYear (guess + 1) ≤ n then guess + 1
  else guess

/-- Month and day of a day of the year, given the month to start from and the lengths from there
on. -/
def monthAndDay : Int → Int → List Int → Int × Int
  | month, rest, [] => (month, rest + 1)
  | month, rest, length :: later =>
    if rest < length then (month, rest + 1) else monthAndDay (month + 1) (rest - length) later

def ofDayNumber (n : Int) : Date :=
  let year := yearOfDay n
  let (month, day) := monthAndDay 1 (n - daysBeforeYear year) (monthLengths year)
  ⟨year, month, day⟩

/-- The day of the week, from 0 for Monday to 6 for Sunday. -/
def weekdayOf (dayNumber : Int) : Int :=
  dayNumber % 7

def weekday (d : Date) : Int :=
  weekdayOf d.dayNumber

def isValid (d : Date) : Bool :=
  1 ≤ d.year && d.year ≤ 9999 && 1 ≤ d.month && d.month ≤ 12 && 1 ≤ d.day &&
    d.day ≤ monthLength d.year d.month

def endOfDays : Int := daysBeforeYear 10000

/-- Years and months later, the day clamped to the length of the month it comes to. -/
def addMonths (d : Date) (years months : Int) : Date :=
  let count := (d.year + years) * 12 + (d.month - 1) + months
  let year := count / 12
  let month := count % 12 + 1
  ⟨year, month, min d.day (monthLength year month)⟩

def weekdayNames : List String :=
  ["monday", "tuesday", "wednesday", "thursday", "friday", "saturday", "sunday"]

end Date

end Reckon

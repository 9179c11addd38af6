import Reckon.Clock.Context
import Reckon.Output

/-!
Resolution: from the value of a node to an output. Values without a time are read off as they stand.
Time forms are grounded against a context: every relative form is counted from a reference moment,
which is the context's own or, for the end of an interval, the start of the interval; the result
carries the grain of the expression.
-/

set_option autoImplicit false

namespace Reckon

abbrev Grounded := Moment × Grain

namespace TimeForm

/-- The years searched for a date without a year; a weekday on a date comes round within this
span. -/
def yearWindow : Nat := 28

def monthWindow : Nat := 12 * yearWindow

def isAnchored : TimeForm → Bool
  | dayOfWeek _ _ | calendar _ | timeOfDay _ | timed _ _ => true
  | now | relative _ _ | shift _ _ | interval _ _ | unknown _ => false

/-- How many days ahead the weekday lies: from 1 to 7, or from 0 to 6 for "this". -/
def daysAhead (today weekday : Int) (direction : Option Direction) : Int :=
  let ahead := (weekday - today) % 7
  if ahead = 0 && direction ≠ some .this then 7 else ahead

/-- How many days back the last such weekday lies, from 1 to 7. -/
def daysBack (today weekday : Int) : Int :=
  let back := (today - weekday) % 7
  if back = 0 then 7 else back

def groundDayOfWeek (weekday : Int) (direction : Option Direction) (ref : Moment) :
    Except Failure Moment :=
  let today := ref.startOfDay
  if direction = some .last then today.add .day (-(daysBack today.weekday weekday))
  else today.add .day (daysAhead today.weekday weekday direction)

def resolutionFault {α : Type} (fault : ResolutionFault) : Except Failure α :=
  .error (.resolution fault)

/-- Whether a date is not before today and has the wanted weekday, if one is wanted. -/
def isUpcoming (today : Moment) (weekday : Option Int) (m : Moment) : Bool :=
  !m.isBefore today && (weekday == none || weekday == some m.weekday)

def searchYears (today : Moment) (month day : Int) (weekday : Option Int) :
    Nat → Int → Except Failure (Option Moment)
  | 0, _ => .ok none
  | count + 1, year => do
    match ← Moment.ofDate? today.zone ⟨year, month, day⟩ with
    | some m =>
      if isUpcoming today weekday m then return some m
      else searchYears today month day weekday count (year + 1)
    | none => searchYears today month day weekday count (year + 1)

/-- The first of `count` months, the `index`-th after `monthStart` and on, in which the day is
upcoming. -/
def searchMonths (today monthStart : Moment) (day : Int) (weekday : Option Int) :
    Nat → Int → Except Failure (Option Moment)
  | 0, _ => .ok none
  | count + 1, index => do
    let start ← monthStart.add .month index
    match ← Moment.ofDate? today.zone ⟨start.date.year, start.date.month, day⟩ with
    | some m =>
      if isUpcoming today weekday m then return some m
      else searchMonths today monthStart day weekday count (index + 1)
    | none => searchMonths today monthStart day weekday count (index + 1)

def groundFullDate (zone : Zone) (d : Date) (weekday : Option Int) : Except Failure Moment := do
  match ← Moment.ofDate? zone d with
  | none => resolutionFault (.invalidDate d.year d.month d.day)
  | some m =>
    match weekday with
    | none => return m
    | some wanted =>
      if m.weekday = wanted then return m
      else resolutionFault (.otherWeekday (IsoText.plainDateText m.date) wanted)

/-- The month of a year; without a month, or for month 0, January. -/
def openingMonth (month : Option Int) : Int :=
  match month with
  | none => 1
  | some m => if m = 0 then 1 else m

def groundCalendar (c : PartialDate) (ref : Moment) : Except Failure Moment :=
  let today := ref.startOfDay
  match c.year, c.month, c.day with
  | some year, some month, some day => groundFullDate ref.zone ⟨year, month, day⟩ c.weekday
  | some year, month, _ => Moment.ofDate ref.zone ⟨year, openingMonth month, 1⟩
  | none, some month, some day => do
    match ← searchYears today month day c.weekday (yearWindow + 1) today.date.year with
    | some m => return m
    | none => resolutionFault (.noUpcomingDate month day c.weekday)
  | none, some month, none =>
    let year := if today.date.month ≤ month then today.date.year else today.date.year + 1
    Moment.ofDate ref.zone ⟨year, month, 1⟩
  | none, none, some day => do
    let monthStart ← today.startOf .month 0
    match ← searchMonths today monthStart day c.weekday monthWindow 0 with
    | some m => return m
    | none => resolutionFault (.noUpcomingDay day c.weekday)
  | none, none, none => resolutionFault .emptyCalendar

def hoursOf (t : ClockTime) : List Int :=
  let other := (t.hour + 12) % 24
  if !t.ambiguous || other = t.hour then [t.hour]
  else if t.hour < other then [t.hour, other] else [other, t.hour]

def earliest? : List Moment → Option Moment
  | [] => none
  | m :: rest => some (rest.foldl (fun best next => if next.isBefore best then next else best) m)

/-- The earliest reading of a clock time on a day that is not before `floor`. -/
def readingOn (t : ClockTime) (floor day : Moment) : Except Failure (Option Moment) := do
  let options ← (hoursOf t).mapM fun hour =>
    day.setTime hour t.minute day.reading.second day.reading.microsecond
  return earliest? (options.filter fun m => !m.isBefore floor)

def groundTimeOfDay (t : ClockTime) (ref : Moment) : Except Failure Moment := do
  let floor ← ref.startOf .minute 0
  let today := ref.startOfDay
  match ← readingOn t floor (← today.add .day 0) with
  | some m => return m
  | none =>
    match ← readingOn t floor (← today.add .day 1) with
    | some m => return m
    | none => resolutionFault (.noPlace t.hour t.minute)

def addPeriod (sign : Int) : Period → Moment → Except Failure Moment
  | [], m => .ok m
  | (grain, n) :: rest, m => do addPeriod sign rest (← m.add grain (sign * n))

def groundShift (period : Period) (sign : Int) (ref : Moment) : Except Failure Grounded := do
  let m ← addPeriod sign period ref
  match period.finest? with
  | none => .error .outOfRange
  | some finest =>
    if Grain.day.size ≤ finest.size then return (m.startOfDay, .day)
    else return (← m.startOf .second 0, finest)

/-- The moment and the grain of a form that is not an interval, counted from a reference. -/
def ground (c : Context) : TimeForm → Moment → Except Failure Grounded
  | now, ref => do return (← ref.startOf c.defaultGrain c.weekStart, c.defaultGrain)
  | relative grain offset, ref => do
    return (← (← ref.startOf grain c.weekStart).add grain offset, grain)
  | dayOfWeek weekday direction, ref => do return (← groundDayOfWeek weekday direction ref, .day)
  | calendar date, ref => do return (← groundCalendar date ref, date.grain)
  | timeOfDay time, ref => do return (← groundTimeOfDay time ref, time.grain)
  | timed date time, ref => do
    let (day, grain) ← ground c date ref
    if grain ≠ .day then resolutionFault (.notADay grain.label)
    else return (← day.setTime time.hour time.minute 0 0, time.grain)
  | shift period sign, ref => groundShift period sign ref
  | interval _ _, _ => resolutionFault .nestedInterval
  | unknown typeName, _ => resolutionFault (.unknownForm typeName)

end TimeForm

namespace Value

open TimeForm

/-- The end of an interval is read from its start if its form is anchored, and must not come before
it. -/
def resolveInterval (c : Context) (start stop : TimeForm) (v : DatetimeValue) :
    Except Failure Output := do
  let (first, firstGrain) ← start.ground c c.now
  let (last, lastGrain) ← stop.ground c (if stop.isAnchored then first else c.now)
  if last.isBefore first then
    resolutionFault (.endsBeforeStart (IsoText.renderWith " " first) (IsoText.renderWith " " last))
  else return .interval first last (firstGrain.finer lastGrain) v.precision v.latent

def resolveDatetime (c : Context) (v : DatetimeValue) : Except Failure Output :=
  match v.form with
  | .interval start stop => resolveInterval c start stop v
  | form => do
    let (m, grain) ← form.ground c c.now
    return .datetime m grain v.precision v.latent

def coercionFault {α : Type} (fault : CoercionFault) : Except Failure α :=
  .error (.coercion fault)

def resolveNumber : Numeral → Except Failure Output
  | .truth _ => coercionFault .truthValue
  | .int n => .ok (.integer n)
  | .float x => .ok (.float x)

def read (c : Context) : Value → Except Failure Output
  | number v => resolveNumber v.value
  | ordinal v => do return .ordinal (← v.value.toInt)
  | percentage v => do return .percentage (← v.value.toFloat)
  | temperature v => do return .temperature (← v.value.toFloat) v.unit
  | money v => do return .money (← v.value.toFloat) v.precision v.unit
  | duration v =>
    if v.period.isEmpty then coercionFault .emptyDuration else .ok (.duration v.period v.precision)
  | datetime v => resolveDatetime c v
  | value => coercionFault (.noReading value.typeName)

def resolve (kind : Kind) (value : Value) (c : Context) : Except Failure Output :=
  if value.dimension? = some kind.dimension then value.read c
  else coercionFault (.wrongKind value.typeName kind.label)

end Value

end Reckon

import Reckon.Calendar.Grain
import Reckon.Clock.Zone

/-!
Moments: a wall-clock reading in a zone, with the fold that tells the two occurrences of a repeated
reading apart. `atLocal` moves a reading that the zone skips, `ofInstant` reads the clock at an
instant, `startOf` truncates to a grain and `add` moves by a count of grains. Moments of one zone
are ordered by their readings.
-/

set_option autoImplicit false

namespace Reckon

structure Moment where
  zone : Zone
  reading : LocalTime
  fold : Bool
deriving DecidableEq, Repr

namespace Moment

def offset (m : Moment) : Int :=
  m.zone.offsetOf m.reading m.fold

/-- Microseconds of UTC since the start of year 1. -/
def instant (m : Moment) : Int :=
  Zone.instantUnder m.offset m.reading

def date (m : Moment) : Date := m.reading.date

def weekday (m : Moment) : Int := m.reading.weekday

/-- The order of the readings, which is that of moments in one zone. -/
def isBefore (a b : Moment) : Bool :=
  a.reading.ticks < b.reading.ticks

/-- A reading that the zone skips is moved by the length of the gap: forward under the fold,
backward without it. Any other reading is taken as it stands. -/
def atLocal (z : Zone) (t : LocalTime) (fold : Bool) : Moment :=
  let before := z.offsetOf t false
  let after := z.offsetOf t true
  if before < after then
    let gap := (after - before) * LocalTime.ticksPerSecond
    ⟨z, ⟨if fold then t.ticks + gap else t.ticks - gap⟩, false⟩
  else ⟨z, t, fold⟩

/-- The reading at an instant; its fold is set only at the second occurrence of a repeated
reading. -/
def readAt (z : Zone) (instant : Int) : Moment :=
  let offset := z.offsetAt instant
  let t : LocalTime := ⟨instant + offset * LocalTime.ticksPerSecond⟩
  ⟨z, t, offset != z.offsetOf t false⟩

def ofInstant (z : Zone) (instant : Int) : Except Failure Moment :=
  let m := readAt z instant
  if (LocalTime.mk instant).isRepresentable && m.reading.isRepresentable then .ok m
  else .error .outOfRange

/-- The same instant in a zone; in its own zone a moment stays as it is. -/
def inZone (m : Moment) (z : Zone) : Except Failure Moment :=
  if m.zone = z then .ok m else ofInstant z m.instant

def withReading (m : Moment) (t : LocalTime) : Moment :=
  atLocal m.zone t m.fold

def setTime (m : Moment) (hour minute second microsecond : Int) : Except Failure Moment :=
  if LocalTime.isTimeOfDay hour minute second microsecond then
    .ok (m.withReading (LocalTime.make m.date hour minute second microsecond))
  else .error .outOfRange

def largestField : Int := 2147483648

/-- Whether a number fits the field of a date at all. -/
def fitsField (n : Int) : Bool :=
  -largestField ≤ n && n < largestField

/-- Midnight of a date, or none if there is no such date. -/
def ofDate? (z : Zone) (d : Date) : Except Failure (Option Moment) :=
  if fitsField d.year && fitsField d.month && fitsField d.day then
    .ok (if d.isValid then some (atLocal z (LocalTime.midnight d) true) else none)
  else .error .outOfRange

def ofDate (z : Zone) (d : Date) : Except Failure Moment := do
  match ← ofDate? z d with
  | some m => .ok m
  | none => .error .outOfRange

def addElapsed (m : Moment) (ticks : Int) : Except Failure Moment :=
  if (LocalTime.mk m.instant).isRepresentable then ofInstant m.zone (m.instant + ticks)
  else .error .outOfRange

def addDays (m : Moment) (days : Int) : Except Failure Moment :=
  let t : LocalTime := ⟨m.reading.ticks + days * LocalTime.ticksPerDay⟩
  if t.isRepresentable then .ok (atLocal m.zone t true) else .error .outOfRange

def addMonths (m : Moment) (years months : Int) : Except Failure Moment :=
  let d := m.date.addMonths years months
  if d.isValid then
    let time := m.reading.ticks % LocalTime.ticksPerDay
    .ok (atLocal m.zone ⟨d.dayNumber * LocalTime.ticksPerDay + time⟩ true)
  else .error .outOfRange

/-- A count of grains later. Days and longer move the wall clock, shorter grains the instant; a
count of zero also goes through the instant. -/
def add (m : Moment) (grain : Grain) (n : Int) : Except Failure Moment :=
  if n = 0 then m.addElapsed 0
  else match grain with
    | .second => m.addElapsed (n * LocalTime.ticksPerSecond)
    | .minute => m.addElapsed (n * LocalTime.ticksPerMinute)
    | .hour => m.addElapsed (n * LocalTime.ticksPerHour)
    | .day => m.addDays n
    | .week => m.addDays (7 * n)
    | .month => m.addMonths 0 n
    | .year => m.addMonths n 0

def startOfDay (m : Moment) : Moment :=
  m.withReading (m.reading.floorTo LocalTime.ticksPerDay)

/-- The start of the grain's bucket that holds the moment; weeks begin on `weekStart`. -/
def startOf (m : Moment) (grain : Grain) (weekStart : Int) : Except Failure Moment :=
  match grain with
  | .second => .ok (m.withReading (m.reading.floorTo LocalTime.ticksPerSecond))
  | .minute => .ok (m.withReading (m.reading.floorTo LocalTime.ticksPerMinute))
  | .hour => .ok (m.withReading (m.reading.floorTo LocalTime.ticksPerHour))
  | .day => .ok m.startOfDay
  | .week => m.startOfDay.add .day (-((m.startOfDay.weekday - weekStart) % 7))
  | .month => .ok (m.withReading (LocalTime.midnight ⟨m.date.year, m.date.month, 1⟩))
  | .year => .ok (m.withReading (LocalTime.midnight ⟨m.date.year, 1, 1⟩))

end Moment

end Reckon

import Reckon.Clock.LocalTime

/-!
Time zones: a standard offset from UTC and, in some zones, a season of daylight saving that begins
and ends on a Sunday, or eras in which other offsets were in use. Changes that follow no such rule
are eras too, one for each of them. `offsetAt` gives the offset at an instant, `offsetOf` the offset
of a wall-clock reading; of a reading that occurs twice, or not at all, the fold picks the earlier
or the later side of the change.
-/

set_option autoImplicit false

namespace Reckon

inductive Sunday where
  | first | second | last
deriving DecidableEq, Repr

/-- A yearly change of the clock: the second of a Sunday, read on a clock with the given offset. -/
structure Change where
  month : Int
  sunday : Sunday
  seconds : Int
  offset : Int
deriving DecidableEq, Repr

/-- Daylight saving, in seconds, from one change to another. -/
structure Season where
  saving : Int
  starts : Change
  ends : Change
deriving DecidableEq, Repr

/-- A time when a zone had another offset, in seconds, and the reading of UTC at which it ended. -/
structure Era where
  offset : Int
  ends : LocalTime
deriving DecidableEq, Repr

/-- A zone by name, with its standard offset from UTC in seconds. Its eras are in the order of time,
and the standard offset and the season hold after them. -/
structure Zone where
  name : String
  standard : Int
  season : Option Season := none
  eras : List Era := []
deriving DecidableEq, Repr

namespace Change

def dayNumber (c : Change) (year : Int) : Int :=
  let opening := Date.dayNumber ⟨year, c.month, 1⟩
  let closing := Date.dayNumber ⟨year, c.month, Date.monthLength year c.month⟩
  let firstSunday := opening + (6 - Date.weekdayOf opening)
  match c.sunday with
  | .first => firstSunday
  | .second => firstSunday + 7
  | .last => closing - (Date.weekdayOf closing + 1) % 7

def instant (c : Change) (year : Int) : Int :=
  c.dayNumber year * LocalTime.ticksPerDay + (c.seconds - c.offset) * LocalTime.ticksPerSecond

end Change

namespace Zone

def Season.covers (s : Season) (year instant : Int) : Bool :=
  let starts := s.starts.instant year
  let ends := s.ends.instant year
  if starts < ends then starts ≤ instant && instant < ends
  else !(ends ≤ instant && instant < starts)

/-- The offset, in seconds, at an instant after all eras. -/
def seasonalOffset (z : Zone) (instant : Int) : Int :=
  match z.season with
  | none => z.standard
  | some s =>
    let year := (LocalTime.mk (instant + z.standard * LocalTime.ticksPerSecond)).date.year
    if Season.covers s year instant then z.standard + s.saving else z.standard

def offsetAt (z : Zone) (instant : Int) : Int :=
  match z.eras.find? fun era => instant < era.ends.ticks with
  | some era => era.offset
  | none => z.seasonalOffset instant

def instantUnder (offset : Int) (t : LocalTime) : Int :=
  t.ticks - offset * LocalTime.ticksPerSecond

def shows (z : Zone) (offset : Int) (t : LocalTime) : Bool :=
  z.offsetAt (instantUnder offset t) == offset

/-- The offset of a reading: that of the day before or that of the day after, whichever shows it. A
reading that both show, or neither, has the offset of the day before, and under the fold that of the
day after. -/
def offsetOf (z : Zone) (t : LocalTime) (fold : Bool) : Int :=
  let before := z.offsetAt (t.ticks - LocalTime.ticksPerDay)
  let after := z.offsetAt (t.ticks + LocalTime.ticksPerDay)
  match z.shows before t, z.shows after t with
  | true, false => before
  | false, true => after
  | _, _ => if fold then after else before

def fixed (name : String) (offset : Int) : Zone :=
  { name, standard := offset }

def utc : Zone := fixed "UTC" 0

end Zone

end Reckon

import Reckon.Clock.IsoText
import Reckon.Clock.ZoneTable
import Reckon.Datum

/-!
The context in which relative expressions are grounded: the moment that counts as now, in a zone,
the grain reported for expressions that have none, and the day on which weeks begin.
-/

set_option autoImplicit false

namespace Reckon

inductive Reference where
  | text (s : String)
  /-- A wall-clock reading in the zone of the context. -/
  | reading (t : LocalTime)
  | moment (m : Moment)
  /-- Anything else. -/
  | unsupported (d : Datum)
deriving Repr

structure Context where
  now : Moment
  defaultGrain : Grain := .second
  weekStart : Int := 0
deriving DecidableEq, Repr

namespace Context

def zone (c : Context) : Zone := c.now.zone

def referenceMoment (zone : Zone) : Reference → Except Failure Moment
  | .text s => IsoText.moment zone s
  | .reading t => .ok (Moment.atLocal zone t false)
  | .moment m => .ok m
  | .unsupported d => .error (.setting (.unsupportedReference d.shown))

def zoneOf (zones : String → Option Zone) (name : String) : Except Failure Zone :=
  match zones name with
  | some zone => .ok zone
  | none => .error (.setting (.unknownZone name))

def checkWeekStart (weekStart : Int) : Except Failure Unit :=
  if 0 ≤ weekStart && weekStart ≤ 6 then .ok ()
  else .error (.setting (.weekStart (toString weekStart)))

def grainOf (size : Int) : Except Failure Grain :=
  match Grain.ofSize? size with
  | some grain => .ok grain
  | none => .error .outOfRange

/-- A context from its settings, where zones are looked up by their names. The default grain is
given by its place in order of size. -/
def makeWith (zones : String → Option Zone) (reference : Reference) (zoneName : String)
    (grainSize weekStart : Int) : Except Failure Context := do
  let zone ← zoneOf zones zoneName
  checkWeekStart weekStart
  let now ← (← referenceMoment zone reference).inZone zone
  let defaultGrain ← grainOf grainSize
  return { now, defaultGrain, weekStart }

/-- A context whose zone is in the table. -/
def make : Reference → String → Int → Int → Except Failure Context :=
  makeWith Zone.ofName?

structure Report where
  reference : String
  zoneName : String
  defaultGrain : String
  weekStart : String
deriving DecidableEq, Repr

def report (c : Context) : Report :=
  { reference := IsoText.render c.now
    zoneName := c.zone.name
    defaultGrain := c.defaultGrain.label
    weekStart := Date.weekdayNames.getD c.weekStart.toNat "" }

def training : Context :=
  { now := ⟨Zone.utc, LocalTime.make ⟨2013, 2, 12⟩ 4 30 0 0, false⟩ }

end Context

end Reckon

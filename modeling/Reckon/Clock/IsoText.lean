import Reckon.Clock.Moment
import Reckon.Text.Digit

/-!
The ISO 8601 text of moments. `render` writes a moment with its offset; `Reading.ofText?` reads
calendar dates, week dates and ordinal dates, in the basic and the extended form, with an optional
time and an optional offset.
-/

set_option autoImplicit false

namespace Reckon.IsoText

def padded (width : Nat) (n : Int) : String :=
  Failure.paddedInt width n

def dateText (d : Date) : String :=
  padded 4 d.year ++ "-" ++ padded 2 d.month ++ "-" ++ padded 2 d.day

def plainDateText (d : Date) : String :=
  toString d.year ++ "-" ++ padded 2 d.month ++ "-" ++ padded 2 d.day

def timeText (t : LocalTime) : String :=
  let whole := padded 2 t.hour ++ ":" ++ padded 2 t.minute ++ ":" ++ padded 2 t.second
  if t.microsecond = 0 then whole else whole ++ "." ++ padded 6 t.microsecond

def offsetText (offset : Int) : String :=
  let n : Int := offset.natAbs
  let whole := padded 2 (n / 3600) ++ ":" ++ padded 2 (n % 3600 / 60)
  (if offset < 0 then "-" else "+") ++
    if n % 60 = 0 then whole else whole ++ ":" ++ padded 2 (n % 60)

def renderWith (separator : String) (m : Moment) : String :=
  dateText m.date ++ separator ++ timeText m.reading ++ offsetText m.offset

def render (m : Moment) : String :=
  renderWith "T" m

/-- A reading as a text gives it; without an offset it belongs to the zone of the reader. -/
structure Reading where
  date : Date
  hour : Int
  minute : Int
  second : Int
  microsecond : Int
  offset : Option Int
deriving DecidableEq, Repr

def asciiDigit? (c : Char) : Option Nat :=
  if '0' ≤ c && c ≤ '9' then some (c.toNat - 48) else none

def fixedDigits : Nat → Nat → List Char → Option (Nat × List Char)
  | 0, n, rest => some (n, rest)
  | count + 1, n, c :: rest =>
    match asciiDigit? c with
    | some d => fixedDigits count (10 * n + d) rest
    | none => none
  | _ + 1, _, [] => none

def digits (count : Nat) (cs : List Char) : Option (Int × List Char) :=
  (fixedDigits count 0 cs).map fun (n, rest) => ((n : Int), rest)

def atDateEnd : List Char → Bool
  | [] => true
  | c :: _ => c == 'T' || c == ' '

/-- The date of a day in an ISO week, whose first week holds the first Thursday of the year. -/
def weekDate? (year week day : Int) : Option Date :=
  let fourth := Date.dayNumber ⟨year, 1, 4⟩
  let firstMonday := fourth - Date.weekdayOf fourth
  let nextFourth := Date.dayNumber ⟨year + 1, 1, 4⟩
  let weeks := (nextFourth - Date.weekdayOf nextFourth - firstMonday) / 7
  if 1 ≤ week && week ≤ weeks && 1 ≤ day && day ≤ 7 then
    some (Date.ofDayNumber (firstMonday + 7 * (week - 1) + (day - 1)))
  else none

def ordinalDate? (year day : Int) : Option Date :=
  if 1 ≤ day && day ≤ (if Date.isLeap year then 366 else 365) then
    some (Date.ofDayNumber (Date.daysBeforeYear year + day - 1))
  else none

def weekPart (year : Int) (extended : Bool) (cs : List Char) : Option (Date × List Char) := do
  let (week, rest) ← digits 2 cs
  if atDateEnd rest then
    return (← weekDate? year week 1, rest)
  let rest ←
    if extended then (if rest.head? = some '-' then some rest.tail else none) else some rest
  let (day, rest) ← digits 1 rest
  return (← weekDate? year week day, rest)

def extendedPart (year : Int) (cs : List Char) : Option (Date × List Char) := do
  if cs.head? = some 'W' then
    weekPart year true cs.tail
  else
    let (month, rest) ← digits 2 cs
    if atDateEnd rest then
      return (⟨year, month, 1⟩, rest)
    else if rest.head? = some '-' then
      let (day, rest) ← digits 2 rest.tail
      return (⟨year, month, day⟩, rest)
    else
      let (last, rest) ← digits 1 rest
      return (← ordinalDate? year (10 * month + last), rest)

def basicPart (year : Int) (cs : List Char) : Option (Date × List Char) := do
  if atDateEnd cs then
    return (⟨year, 1, 1⟩, cs)
  if cs.head? = some 'W' then
    weekPart year false cs.tail
  else
    let (month, rest) ← digits 2 cs
    if atDateEnd rest then
      return (⟨year, month, 1⟩, rest)
    else
      let (first, rest) ← digits 1 rest
      if atDateEnd rest then
        return (← ordinalDate? year (10 * month + first), rest)
      let (last, rest) ← digits 1 rest
      return (⟨year, month, 10 * first + last⟩, rest)

/-- The microseconds of a decimal fraction; digits after the sixth are cut off. -/
def fractionPart (cs : List Char) : Option (Int × List Char) :=
  let ds := cs.takeWhile fun c => (asciiDigit? c).isSome
  if ds.isEmpty then none
  else
    let six := ds.take 6 ++ List.replicate (6 - ds.length) '0'
    some (Text.readNat six, cs.drop ds.length)

def isFractionMark (c : Option Char) : Bool :=
  c == some '.' || c == some ','

def startsOffset (c : Option Char) : Bool :=
  c == some 'Z' || c == some '+' || c == some '-'

def offsetPart (cs : List Char) : Option (Option Int × List Char) :=
  match cs with
  | [] => some (none, [])
  | 'Z' :: rest => some (some 0, rest)
  | sign :: rest => do
    if sign ≠ '+' && sign ≠ '-' then none
    let (hours, rest) ← digits 2 rest
    let rest := if rest.head? = some ':' then rest.tail else rest
    let (minutes, rest) ← if rest.isEmpty then some (0, rest) else digits 2 rest
    let size := 3600 * hours + 60 * minutes
    return (some (if sign = '-' then -size else size), rest)

def secondsPart (separated : Bool) (cs : List Char) : Option (Int × Int × List Char) := do
  if cs.isEmpty || startsOffset cs.head? then
    return (0, 0, cs)
  let cs ← if separated then (if cs.head? = some ':' then some cs.tail else none) else some cs
  let (second, rest) ← digits 2 cs
  if isFractionMark rest.head? then
    let (fraction, rest) ← fractionPart rest.tail
    return (second, fraction, rest)
  return (second, 0, rest)

/-- Hour, minute, second and microsecond. A separated time goes with a separated date. -/
def timePart (separatedDate : Bool) (cs : List Char) :
    Option ((Int × Int × Int × Int) × List Char) := do
  let (hour, rest) ← digits 2 cs
  if rest.isEmpty || startsOffset rest.head? then
    return ((hour, 0, 0, 0), rest)
  let separated := rest.head? = some ':'
  if separatedDate && !separated then none
  let (minute, rest) ← digits 2 (if separated then rest.tail else rest)
  let (second, microsecond, rest) ← secondsPart separated rest
  return ((hour, minute, second, microsecond), rest)

def Reading.isValid (r : Reading) : Bool :=
  r.date.isValid && LocalTime.isTimeOfDay r.hour r.minute r.second r.microsecond &&
    (match r.offset with
      | some offset => offset.natAbs < 86400
      | none => true)

def Reading.checked (r : Reading) : Option Reading :=
  if r.isValid then some r else none

def Reading.ofText? (text : String) : Option Reading := do
  let (year, rest) ← digits 4 text.toList
  let separated := rest.head? = some '-'
  let (date, rest) ← if separated then extendedPart year rest.tail else basicPart year rest
  match rest with
  | [] => Reading.checked ⟨date, 0, 0, 0, 0, none⟩
  | _ :: time =>
    let ((hour, minute, second, microsecond), rest) ← timePart separated time
    let (offset, rest) ← offsetPart rest
    if rest.isEmpty then Reading.checked ⟨date, hour, minute, second, microsecond, offset⟩ else none

/-- The moment a text names, as read in the given zone unless the text has an offset of its own. -/
def moment (zone : Zone) (text : String) : Except Failure Moment :=
  match Reading.ofText? text with
  | none => .error (.unreadableTime text)
  | some r =>
    let reading := LocalTime.make r.date r.hour r.minute r.second r.microsecond
    match r.offset with
    | some offset => .ok (Moment.atLocal (Zone.fixed (offsetText offset) offset) reading true)
    | none => .ok (Moment.atLocal zone reading true)

end Reckon.IsoText

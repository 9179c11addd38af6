import Reckon.Calendar.Date
import Reckon.English.Durations

/-!
Dates and times. The rules build time forms: days by name or by number, times of day, both together,
periods ahead or back, and ranges between two points.
-/

set_option autoImplicit false

namespace Reckon.English.Datetimes

def ofForm (form : TimeForm) : Value :=
  .datetime { form }

def latentForm (form : TimeForm) : Value :=
  .datetime { form, latent := true }

def ofDate (d : PartialDate) : Value :=
  ofForm (.calendar d)

/-! Tests on forms. -/

def calendar? (v : DatetimeValue) : Option PartialDate :=
  match v.form with
  | .calendar d => some d
  | _ => none

def isMonthOnly (d : PartialDate) : Bool :=
  d.month.isSome && d.day.isNone && d.year.isNone && d.weekday.isNone

def isMonthAndDay (d : PartialDate) : Bool :=
  d.month.isSome && d.day.isSome && d.year.isNone

def isDayOnly (d : PartialDate) : Bool :=
  d.day.isSome && d.month.isNone && d.year.isNone && d.weekday.isNone

def isDayWithoutWeekday (d : PartialDate) : Bool :=
  d.day.isSome && d.weekday.isNone

def onCalendar (test : PartialDate → Bool) : Item Value :=
  Test.datetime fun v => match v.form with
    | .calendar d => test d
    | _ => false

def plainWeekday : Item Value :=
  Test.datetime fun v => match v.form with
    | .dayOfWeek _ none => true
    | _ => false

def onClock (test : DatetimeValue → ClockTime → Bool) : Item Value :=
  Test.datetime fun v => match v.form with
    | .timeOfDay t => test v t
    | _ => false

/-- Forms that name a day, to which a time can be added. -/
def isDayForm : TimeForm → Bool
  | .dayOfWeek _ _ => true
  | .relative grain _ => grain == .day
  | .calendar d => d.day.isSome
  | _ => false

def isPointForm : TimeForm → Bool
  | .interval _ _ => false
  | _ => true

def dayForm : Item Value := Test.datetime fun v => isDayForm v.form

def pointForm : Item Value := Test.datetime fun v => isPointForm v.form

def timeForm : Item Value := onClock fun v _ => !v.latent

def dayNumber? (n : Numeral) : Option Int :=
  match n.int? with
  | some i => if 1 ≤ i && i ≤ 31 then some i else none
  | none => none

def dayOf? : Value → Option Int
  | .ordinal o => dayNumber? o.value
  | .number n => dayNumber? n.value
  | .datetime v => match v.form with
    | .calendar d => if isDayOnly d then d.day else none
    | _ => none
  | _ => none

def dayOfMonth : Item Value := .holding fun v => (dayOf? v).isSome

def isYear (n : NumberValue) : Bool :=
  !n.fromWords && isIntBetween 1000 2100 n

def year : Item Value := Test.number isYear

/-! Days and dates. -/

def now : List (Finding Value) → Produced
  | _ => made (ofForm .now)

def relativeDays : List (String × Int) :=
  [("today", 0), ("tomorrow", 1), ("yesterday", -1), ("day after tomorrow", 2),
    ("day before yesterday", -2)]

def splitWords (cs : List Char) : List (List Char) :=
  (cs.splitBy fun a b => Text.isTrimmed a == Text.isTrimmed b).filter fun word =>
    !word.any Text.isTrimmed

def withoutArticle : List (List Char) → List (List Char)
  | ['t', 'h', 'e'] :: word :: rest => word :: rest
  | parts => parts

def relativeDay : List (Finding Value) → Produced
  | [.text m] => do
    let parts := withoutArticle (splitWords (Text.lower ((m.group? 1).getD [])))
    let offset ← entryOf relativeDays (" ".intercalate (parts.map String.ofList))
    made (ofForm (.relative .day offset))
  | _ => declined

def directionOffset : Direction → Int
  | .this => 0
  | .next => 1
  | .last => -1

def relativeGrain : List (Finding Value) → Produced
  | [.text m] => do
    let direction ← entryOf directions (lowered ((m.group? 1).getD []))
    let grain ← Grain.ofName (String.ofList ((m.group? 2).getD []))
    made (ofForm (.relative grain (directionOffset direction)))
  | _ => declined

def weekdayOf (word : List Char) : Except Failure Int :=
  match Date.weekdayNames.findIdx? fun name => (word.take 3).isPrefixOf name.toList with
  | some i => .ok i
  | none => .error .noSuchName

def dayOfWeek : List (Finding Value) → Produced
  | [.text m] => do
    made (ofForm (.dayOfWeek (← weekdayOf (Text.lower ((m.group? 1).getD []))) none))
  | _ => declined

def directedDayOfWeek : List (Finding Value) → Produced
  | [.text m, .value (.datetime v)] => do
    let direction ← entryOf directions (lowered m.content)
    match v.form with
    | .dayOfWeek weekday _ => made (ofForm (.dayOfWeek weekday (some direction)))
    | _ => declined
  | _ => declined

/-- A month by its first three letters; "may" alone is a latent reading. -/
def month : List (Finding Value) → Produced
  | [.text m] => do
    let word := Text.lower ((m.group? 1).getD [])
    let number ← entryOf months (String.ofList (word.take 3))
    made (.datetime
      { form := .calendar { month := some number }, latent := word == ['m', 'a', 'y'] })
  | _ => declined

def theOrdinalDay : List (Finding Value) → Produced
  | [.text _, .value (.ordinal o)] => made (latentForm (.calendar { day := o.value.int? }))
  | _ => declined

def monthDay : List (Finding Value) → Produced
  | [.value (.datetime v), .value d] =>
    match calendar? v with
    | some c => made (ofDate { month := c.month, day := dayOf? d })
    | none => declined
  | _ => declined

def dayMonth : List (Finding Value) → Produced
  | [.value d, .text _, .value (.datetime v)] =>
    match calendar? v with
    | some c => made (ofDate { month := c.month, day := dayOf? d })
    | none => declined
  | _ => declined

def withYear : List (Finding Value) → Produced
  | [.value (.datetime v), .value (.number n)] =>
    match calendar? v with
    | some c => made (ofDate { c with year := n.value.int? })
    | none => declined
  | _ => declined

def inYear : List (Finding Value) → Produced
  | [.text _, .value (.number n)] => made (ofDate { year := n.value.int? })
  | _ => declined

def bareYear : List (Finding Value) → Produced
  | [.value (.number n)] => made (latentForm (.calendar { year := n.value.int? }))
  | _ => declined

def isMonthAndDayInRange (month day : Int) : Bool :=
  1 ≤ month && month ≤ 12 && 1 ≤ day && day ≤ 31

def groupNumber (m : Pattern.Match) (index : Nat) : Int :=
  Text.readNat ((m.group? index).getD [])

def isoDate : List (Finding Value) → Produced
  | [.text m] =>
    let (year, month, day) := (groupNumber m 1, groupNumber m 2, groupNumber m 3)
    if isMonthAndDayInRange month day then
      made (ofDate { year := some year, month := some month, day := some day })
    else declined
  | _ => declined

/-- A year of two digits lies between 1969 and 2068. -/
def fullYear (digits : List Char) : Int :=
  let n : Int := Text.readNat digits
  if digits.length = 2 then (if n < 69 then 2000 + n else 1900 + n) else n

/-- Puts a number of a date in the first free place it fits: the month, the day, or the year, which
takes two digits or four. -/
def place (d : PartialDate) (digits : List Char) : Option PartialDate :=
  let n : Int := Text.readNat digits
  let isShort := digits.length ≤ 2
  if d.month.isNone && isShort && 1 ≤ n && n ≤ 12 then some { d with month := some n }
  else if d.day.isNone && isShort && 1 ≤ n && n ≤ 31 then some { d with day := some n }
  else if d.year.isNone && (digits.length = 2 || digits.length = 4) then
    some { d with year := some (fullYear digits) }
  else none

/-- The date written by three numbers, each put in its place in turn. -/
def datePlaced? (numbers : List (List Char)) : Option Date := do
  let placed ← numbers.foldlM place {}
  let d : Date := ⟨← placed.year, ← placed.month, ← placed.day⟩
  if d.isValid then some d else none

def slashParts (cs : List Char) : List (List Char) :=
  (cs.splitBy fun a b => (a == '/') == (b == '/')).filter fun part => !part.contains '/'

def readSlashDate (cs : List Char) : Option Date :=
  datePlaced? (slashParts cs)

def slashDate (readings : Readings) : List (Finding Value) → Produced
  | [.text m] =>
    match m.group? 3 with
    | none =>
      let (month, day) := (groupNumber m 1, groupNumber m 2)
      if isMonthAndDayInRange month day then
        made (ofDate { month := some month, day := some day })
      else declined
    | some _ =>
      match readings.date m.content with
      | some d => made (ofDate { year := some d.year, month := some d.month, day := some d.day })
      | none => declined
  | _ => declined

def weekdayDate : List (Finding Value) → Produced
  | [.value (.datetime w), .value (.datetime v)] =>
    match w.form, calendar? v with
    | .dayOfWeek weekday _, some c => made (ofDate { c with weekday := some weekday })
    | _, _ => declined
  | _ => declined

/-! Times of day. -/

/-- A reading of a clock; from 1 to 12 it may lie in either half of the day. -/
def onTheClock (hour minute : Int) : ClockTime :=
  { hour, minute, ambiguous := 1 ≤ hour && hour ≤ 12 }

def clock : List (Finding Value) → Produced
  | [.text m] => made (ofForm (.timeOfDay (onTheClock (groupNumber m 1) (groupNumber m 2))))
  | _ => declined

def clockTime? (v : DatetimeValue) : Option ClockTime :=
  match v.form with
  | .timeOfDay t => some t
  | _ => none

def halfDayHour (hour : Int) (afternoon : Bool) : Int :=
  hour % 12 + if afternoon then 12 else 0

def halfDay : List (Finding Value) → Produced
  | [.value (.datetime v), .text m] =>
    match clockTime? v with
    | some t =>
      if 1 ≤ t.hour && t.hour ≤ 12 then
        let afternoon := lowered ((m.group? 1).getD []) == "p"
        made (ofForm (.timeOfDay { hour := halfDayHour t.hour afternoon, minute := t.minute }))
      else declined
    | none => declined
  | _ => declined

def noon : List (Finding Value) → Produced
  | _ => made (ofForm (.timeOfDay { hour := 12 }))

def midnight : List (Finding Value) → Produced
  | _ => made (ofForm (.timeOfDay { hour := 0 }))

def atTime : List (Finding Value) → Produced
  | [.text _, .value (.datetime v)] => made (ofForm v.form)
  | _ => declined

def hourOf (n : NumberValue) : Option ClockTime :=
  n.value.int?.map fun hour => onTheClock hour 0

def oClock : List (Finding Value) → Produced
  | [.value (.number n), .text _] => .ok ((hourOf n).map fun t => ofForm (.timeOfDay t))
  | _ => declined

def bareHour : List (Finding Value) → Produced
  | [.value (.number n)] => .ok ((hourOf n).map fun t => latentForm (.timeOfDay t))
  | _ => declined

/-! Combinations. -/

def timed (date time : DatetimeValue) : Produced :=
  match clockTime? time with
  | some t => made (ofForm (.timed date.form t))
  | none => declined

def dateAtTime : List (Finding Value) → Produced
  | [.value (.datetime d), .value (.datetime t)] => timed d t
  | _ => declined

def timeOnDate : List (Finding Value) → Produced
  | [.value (.datetime t), .text _, .value (.datetime d)] => timed d t
  | _ => declined

def shifted (d : DurationValue) (sign : Int) : Produced :=
  made (.datetime { form := .shift d.period sign, precision := d.precision })

def inDuration : List (Finding Value) → Produced
  | [.text _, .value (.duration d)] => shifted d 1
  | _ => declined

def durationThen (sign : Int) : List (Finding Value) → Produced
  | [.value (.duration d), .text _] => shifted d sign
  | _ => declined

def range : List (Finding Value) → Produced
  | [.text _, .value (.datetime a), .text _, .value (.datetime b)] =>
    made (.datetime { form := .interval a.form b.form, latent := a.latent && b.latent })
  | _ => declined

/-! Patterns. -/

def blanks : Pattern := .some .blank

def nowWords : Pattern :=
  .whole (.seq (.optional (.words ["right ", "just "])) (.literal "now"))

def spaced (parts : List String) : Pattern :=
  .sequence ((parts.map Pattern.literal).intersperse blanks)

def optionalThe : Pattern :=
  .optional (.seq (.literal "the") blanks)

def relativeDayWords : Pattern :=
  .whole (.group 1 (.anyOf
    [.seq optionalThe (spaced ["day", "after", "tomorrow"]),
      .seq optionalThe (spaced ["day", "before", "yesterday"]),
      .literal "today", .literal "tomorrow", .literal "yesterday"]))

def relativeGrainWords : Pattern :=
  .whole (.sequence
    [.group 1
        (.words ["this", "current", "next", "coming", "upcoming", "last", "past", "previous"]),
      blanks, .group 2 (.words ["week", "month", "year"])])

def directionWord : Pattern :=
  .wholeWord ["this", "next", "coming", "upcoming", "last", "past", "previous"]

def weekdayWord : Pattern :=
  .whole (.group 1 (.words weekdayWords))

def monthWord : Pattern :=
  .seq (.whole (.group 1 (.words monthWords))) (.optional (.char '.'))

def oneOrTwoDigits : Pattern := .repeated .digit 1 (some 2)

def isoDateDigits : Pattern :=
  .whole (.sequence
    [.group 1 (.exactly 4 .digit), .char '-', .group 2 oneOrTwoDigits, .char '-',
      .group 3 oneOrTwoDigits])

def slashDateDigits : Pattern :=
  .whole (.sequence
    [.group 1 oneOrTwoDigits, .char '/', .group 2 oneOrTwoDigits,
      .optional (.seq (.char '/') (.group 3 (.alt (.exactly 2 .digit) (.exactly 4 .digit))))])

def hourDigits : Pattern :=
  .alt (.seq (.optional (.one (.between '0' '1'))) .digit)
    (.seq (.char '2') (.one (.between '0' '3')))

def clockDigits : Pattern :=
  .sequence
    [.notBehind [.digit], .group 1 hourDigits, .char ':',
      .group 2 (.seq (.one (.between '0' '5')) .digit), .notAhead .digit]

def halfDayMark : Pattern :=
  .sequence
    [.group 1 (.words ["a", "p"]), .optional (.char '.'), .literal "m", .optional (.char '.'),
      .notAhead (.one .word)]

def oClockWord : Pattern :=
  .sequence
    [.literal "o", .optional (.char '\''), .optional .blank, .literal "clock", .edge]

def atWord : Pattern := .alt (.wholeWord ["at"]) (.char '@')

def untilWord : Pattern :=
  .alt (.wholeWord ["to", "until", "till", "through"]) (.char '-')

/-! Rules. -/

def dayRules (readings : Readings) : List (Rule Value) :=
  [ ⟨"datetime: now", [.text nowWords], now⟩,
    ⟨"datetime: relative day", [.text relativeDayWords], relativeDay⟩,
    ⟨"datetime: this/next/last grain", [.text relativeGrainWords], relativeGrain⟩,
    ⟨"datetime: day of week", [.text weekdayWord], dayOfWeek⟩,
    ⟨"datetime: this/next/last day of week", [.text directionWord, plainWeekday],
      directedDayOfWeek⟩,
    ⟨"datetime: month", [.text monthWord], month⟩,
    ⟨"datetime: the ordinal day",
      [.text (.wholeWord ["the"]), Test.ordinal fun o => (dayNumber? o.value).isSome],
      theOrdinalDay⟩,
    ⟨"datetime: month day", [onCalendar isMonthOnly, dayOfMonth], monthDay⟩,
    ⟨"datetime: day of month",
      [dayOfMonth, .text (.optional (.wholeWord ["of"])), onCalendar isMonthOnly], dayMonth⟩,
    ⟨"datetime: date year", [onCalendar isMonthAndDay, year], withYear⟩,
    ⟨"datetime: month year", [onCalendar isMonthOnly, year], withYear⟩,
    ⟨"datetime: in year", [.text (.wholeWord ["in"]), year], inYear⟩,
    ⟨"datetime: bare year", [year], bareYear⟩,
    ⟨"datetime: iso date", [.text isoDateDigits], isoDate⟩,
    ⟨"datetime: slash date", [.text slashDateDigits], slashDate readings⟩,
    ⟨"datetime: weekday date", [plainWeekday, onCalendar isDayWithoutWeekday], weekdayDate⟩ ]

def timeRules : List (Rule Value) :=
  [ ⟨"datetime: clock time", [.text clockDigits], clock⟩,
    ⟨"datetime: am pm", [onClock fun _ t => t.ambiguous, .text halfDayMark], halfDay⟩,
    ⟨"datetime: noon", [.text (.wholeWord ["noon", "midday"])], noon⟩,
    ⟨"datetime: midnight", [.text (.wholeWord ["midnight"])], midnight⟩,
    ⟨"datetime: at time", [.text atWord, onClock fun _ _ => true], atTime⟩,
    ⟨"datetime: o'clock", [Test.number (isIntBetween 0 23), .text oClockWord], oClock⟩,
    ⟨"datetime: bare hour", [Test.number (isIntBetween 0 23)], bareHour⟩ ]

def combinedRules : List (Rule Value) :=
  [ ⟨"datetime: date at time", [dayForm, timeForm], dateAtTime⟩,
    ⟨"datetime: time on date",
      [timeForm, .text (.optional (.wholeWord ["on"])), dayForm], timeOnDate⟩,
    ⟨"datetime: in duration",
      [.text (.wholeWord ["in", "within"]), Test.duration Test.any], inDuration⟩,
    ⟨"datetime: duration ago", [Test.duration Test.any, .text (.wholeWord ["ago"])],
      durationThen (-1)⟩,
    ⟨"datetime: duration from now",
      [Test.duration Test.any, .text (.wholeWord ["from now", "later", "hence"])], durationThen 1⟩,
    ⟨"datetime: from to",
      [.text (.wholeWord ["from"]), pointForm, .text untilWord, pointForm], range⟩,
    ⟨"datetime: between and",
      [.text (.wholeWord ["between"]), pointForm, .text (.wholeWord ["and"]), pointForm], range⟩ ]

def rules (readings : Readings) : List (Rule Value) :=
  dayRules readings ++ timeRules ++ combinedRules

end Reckon.English.Datetimes

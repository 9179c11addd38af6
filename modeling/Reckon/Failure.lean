import Reckon.Text.Quoted

/-!
What can go wrong, as causes. Construction faults (an unknown language, an unusable model, a bad
setting) end the work they belong to; coercion and resolution faults concern one candidate, which a
parse drops; the remaining causes come from a rule or from date arithmetic and end the whole text.
`Failure.message` is the one place that words them.
-/

set_option autoImplicit false

namespace Reckon

inductive ModelFault where
  | missing (path : String)
  | malformed (path reason : String)
  | otherLanguage (path own wanted : String)
  | notARecord (typeName : String)
  | missingEntries (keys : List String)
  | wrongParts
  | unfitted
  | noPositiveClass
  | singleClass
deriving DecidableEq, Repr

inductive SettingFault where
  | unsupportedReference (shown : String)
  | unknownZone (name : String)
  | weekStart (shown : String)
  | unknownGrain (name : String)
deriving DecidableEq, Repr

inductive CoercionFault where
  | wrongKind (typeName kind : String)
  | truthValue
  | emptyDuration
  | noReading (typeName : String)
  | otherOutput (own wanted : String)
deriving DecidableEq, Repr

inductive ResolutionFault where
  | endsBeforeStart (start stop : String)
  | notADay (grain : String)
  | nestedInterval
  | unknownForm (typeName : String)
  | invalidDate (year month day : Int)
  | otherWeekday (date : String) (weekday : Int)
  | noUpcomingDate (month day : Int) (weekday : Option Int)
  | noUpcomingDay (day : Int) (weekday : Option Int)
  | emptyCalendar
  | noPlace (hour minute : Int)
deriving DecidableEq, Repr

inductive Failure where
  | unknownLanguage (name : String)
  | model (fault : ModelFault)
  | setting (fault : SettingFault)
  | coercion (fault : CoercionFault)
  | resolution (fault : ResolutionFault)
  | unknownKind (name : String)
  | duplicateRules (names : List String)
  | contextMissing
  | unreadableTime (text : String)
  /-- A number or a date outside what can be represented. -/
  | outOfRange
  /-- A matched word that the vocabulary does not list. -/
  | unlistedWord
  /-- A matched word that fits none of the names it should abbreviate. -/
  | noSuchName
  /-- What is read is not there: a field of a value, or the first item of a rule. -/
  | missingField
  /-- A node scored before one of its children. -/
  | unscoredChild
  | badFlags
  | noSuchFile
deriving DecidableEq, Repr

namespace Failure

def quotedList (names : List String) : String :=
  "[" ++ ", ".intercalate (names.map Text.quoted) ++ "]"

def optionalInt : Option Int → String
  | some n => toString n
  | none => "None"

def paddedInt (width : Nat) (n : Int) : String :=
  let digits := toString n.natAbs
  let sign := if n < 0 then "-" else ""
  sign ++ String.ofList (List.replicate (width - sign.length - digits.length) '0') ++ digits

end Failure

def ModelFault.message : ModelFault → String
  | missing path => s!"Model file not found: {path}"
  | malformed path reason => s!"Malformed model file {path}: {reason}"
  | otherLanguage path own wanted => s!"Model {path} was trained for {own}, not {wanted}"
  | notARecord typeName => s!"Model payload must be a dict, got {typeName}"
  | missingEntries keys => "Model payload is missing keys: " ++ Failure.quotedList keys
  | wrongParts => "Model payload does not hold a vectorizer and a logistic regression"
  | unfitted => "Model payload holds an unfitted estimator"
  | noPositiveClass => "Model classifier was not trained with a positive class"
  | singleClass => "Training corpus produced a single class; cannot fit the scorer"

def SettingFault.message : SettingFault → String
  | unsupportedReference shown => s!"Unsupported reference time {shown}"
  | unknownZone name => "Unknown timezone " ++ Text.quoted name
  | weekStart shown => s!"week_start must be in 0..6, got {shown}"
  | unknownGrain name => "Unknown grain " ++ Text.quoted name

def CoercionFault.message : CoercionFault → String
  | wrongKind typeName kind => s!"{typeName} cannot be resolved as {kind}"
  | truthValue => "boolean is not a number"
  | emptyDuration => "empty duration"
  | noReading typeName => s!"no resolver for {typeName}"
  | otherOutput own wanted => s!"Cannot convert {own} into {wanted}"

def ResolutionFault.message : ResolutionFault → String
  | endsBeforeStart start stop => s!"interval ends before it starts: {start} > {stop}"
  | notADay grain => s!"cannot put a time on a {grain}"
  | nestedInterval => "nested intervals are not supported"
  | unknownForm typeName => s!"unknown time form {typeName}"
  | invalidDate year month day => s!"invalid date {year}-{month}-{day}"
  | otherWeekday date weekday => s!"{date} is not weekday {weekday}"
  | noUpcomingDate month day weekday =>
    s!"no upcoming {month}/{day} matching weekday " ++ Failure.optionalInt weekday
  | noUpcomingDay day weekday =>
    s!"no upcoming day {day} matching weekday " ++ Failure.optionalInt weekday
  | emptyCalendar => "empty calendar expression"
  | noPlace hour minute => s!"cannot place {hour}:" ++ Failure.paddedInt 2 minute

def Failure.message : Failure → Option String
  | unknownLanguage name => some s!"Unknown language {name}"
  | model fault => some fault.message
  | setting fault => some fault.message
  | coercion fault => some fault.message
  | resolution fault => some fault.message
  | unknownKind name => some ("Unknown output kind " ++ Text.quoted name)
  | duplicateRules names => some ("Duplicate rule names: " ++ quotedList names)
  | contextMissing => some "CandidateTagger.context is required to resolve matches"
  | unreadableTime text => some s!"Unable to parse string [{text}]"
  | outOfRange | unlistedWord | noSuchName | missingField | unscoredChild | badFlags
  | noSuchFile => none

end Reckon

import Reckon.Scoring.Model

/-!
The default weights of the English rules.
-/

set_option autoImplicit false

namespace Reckon.English

/-- Features and their weights, in units of 2 ^ -10. -/
def defaultTable : List (String × Int) := [
  ("rule:datetime: am pm", 829),
  ("rule:datetime: am pm|datetime: at time", 196),
  ("rule:datetime: am pm|datetime: bare hour", 495),
  ("rule:datetime: am pm|datetime: clock time", 137),
  ("rule:datetime: at time", 58),
  ("rule:datetime: at time|datetime: am pm", 348),
  ("rule:datetime: at time|datetime: bare hour", -676),
  ("rule:datetime: at time|datetime: clock time", 250),
  ("rule:datetime: at time|datetime: noon", 136),
  ("rule:datetime: bare hour", -3047),
  ("rule:datetime: bare hour|number: digits", -161),
  ("rule:datetime: bare hour|number: sum", -456),
  ("rule:datetime: bare hour|number: tens", -804),
  ("rule:datetime: bare hour|number: zero..nineteen", -1626),
  ("rule:datetime: bare year", -1832),
  ("rule:datetime: bare year|number: comma grouped digits", -379),
  ("rule:datetime: bare year|number: digits", -1453),
  ("rule:datetime: between and", -312),
  ("rule:datetime: between and|datetime: am pm+datetime: am pm", 170),
  ("rule:datetime: between and|datetime: am pm+datetime: bare hour", -651),
  ("rule:datetime: between and|datetime: day of week+datetime: day of week", 170),
  ("rule:datetime: clock time", 522),
  ("rule:datetime: date at time", -64),
  ("rule:datetime: date at time|datetime: relative day+datetime: am pm", 266),
  ("rule:datetime: date at time|datetime: relative day+datetime: at time", -331),
  ("rule:datetime: date year", 320),
  ("rule:datetime: date year|datetime: day of month+number: digits", 112),
  ("rule:datetime: date year|datetime: month day+number: digits", 208),
  ("rule:datetime: day of month", -329),
  ("rule:datetime: day of month|datetime: the ordinal day+datetime: month", 323),
  ("rule:datetime: day of month|ordinal: digits+datetime: month", -651),
  ("rule:datetime: day of week", 1006),
  ("rule:datetime: duration ago", 385),
  ("rule:datetime: duration ago|duration: a unit", 107),
  ("rule:datetime: duration ago|duration: count unit", 278),
  ("rule:datetime: duration from now", 129),
  ("rule:datetime: duration from now|duration: count unit", 129),
  ("rule:datetime: from to", -312),
  ("rule:datetime: from to|datetime: am pm+datetime: am pm", 170),
  ("rule:datetime: from to|datetime: am pm+datetime: bare hour", -651),
  ("rule:datetime: from to|datetime: day of week+datetime: day of week", 170),
  ("rule:datetime: in duration", 385),
  ("rule:datetime: in duration|duration: count unit", 278),
  ("rule:datetime: in duration|duration: half an hour", 107),
  ("rule:datetime: in year", 129),
  ("rule:datetime: in year|number: digits", 129),
  ("rule:datetime: iso date", 141),
  ("rule:datetime: midnight", 141),
  ("rule:datetime: month", 809),
  ("rule:datetime: month day", 437),
  ("rule:datetime: month day|datetime: month+number: digits", 335),
  ("rule:datetime: month day|datetime: month+ordinal: digits", 102),
  ("rule:datetime: month year", -405),
  ("rule:datetime: month year|datetime: month+number: digits", -405),
  ("rule:datetime: noon", 259),
  ("rule:datetime: now", -347),
  ("rule:datetime: relative day", 709),
  ("rule:datetime: slash date", 141),
  ("rule:datetime: the ordinal day", 223),
  ("rule:datetime: the ordinal day|ordinal: digits", 223),
  ("rule:datetime: this/next/last day of week", 448),
  ("rule:datetime: this/next/last day of week|datetime: day of week", 448),
  ("rule:datetime: this/next/last grain", 446),
  ("rule:datetime: time on date", 129),
  ("rule:datetime: time on date|datetime: am pm+datetime: relative day", 129),
  ("rule:datetime: weekday date", -312),
  ("rule:datetime: weekday date|datetime: day of week+datetime: day of month", 170),
  ("rule:datetime: weekday date|datetime: day of week+datetime: month day", 170),
  ("rule:datetime: weekday date|datetime: day of week+datetime: the ordinal day", -651),
  ("rule:duration: a unit", -432),
  ("rule:duration: a unit|duration: unit", -432),
  ("rule:duration: approximately", 223),
  ("rule:duration: approximately|duration: count unit", 223),
  ("rule:duration: composite", 223),
  ("rule:duration: composite|duration: count unit+duration: count unit", 223),
  ("rule:duration: count unit", 916),
  ("rule:duration: count unit|number: digits+duration: unit", 556),
  ("rule:duration: count unit|number: zero..nineteen+duration: unit", 360),
  ("rule:duration: half an hour", 259),
  ("rule:duration: unit", -384),
  ("rule:money: amount currency", 612),
  ("rule:money: amount currency|number: digits+money: currency", 448),
  ("rule:money: amount currency|number: tens+money: currency", 165),
  ("rule:money: approximately", 239),
  ("rule:money: approximately|money: amount currency", 120),
  ("rule:money: approximately|money: symbol amount", 120),
  ("rule:money: code amount", 129),
  ("rule:money: code amount|number: digits", 129),
  ("rule:money: currency", -1119),
  ("rule:money: symbol amount", 522),
  ("rule:number: comma grouped digits", 359),
  ("rule:number: decimal", -12),
  ("rule:number: digits", -542),
  ("rule:number: multiply", -411),
  ("rule:number: multiply|number: sum+number: powers of ten", -924),
  ("rule:number: multiply|number: zero..nineteen+number: powers of ten", 513),
  ("rule:number: negative", 452),
  ("rule:number: negative|number: digits", 264),
  ("rule:number: negative|number: zero..nineteen", 188),
  ("rule:number: powers of ten", 853),
  ("rule:number: sum", -2004),
  ("rule:number: sum|number: multiply+number: multiply", 682),
  ("rule:number: sum|number: multiply+number: sum", 472),
  ("rule:number: sum|number: multiply+number: tens", 22),
  ("rule:number: sum|number: multiply+number: zero..nineteen", 167),
  ("rule:number: sum|number: powers of ten+number: multiply", -950),
  ("rule:number: sum|number: powers of ten+number: sum", -1575),
  ("rule:number: sum|number: powers of ten+number: tens", -599),
  ("rule:number: sum|number: powers of ten+number: zero..nineteen", -950),
  ("rule:number: sum|number: sum+number: sum", -220),
  ("rule:number: sum|number: sum+number: tens", -220),
  ("rule:number: sum|number: sum+number: zero..nineteen", -317),
  ("rule:number: sum|number: tens+number: zero..nineteen", 1486),
  ("rule:number: tens", 853),
  ("rule:number: zero..nineteen", 1389),
  ("rule:ordinal: digits", 761),
  ("rule:ordinal: tens and unit", 223),
  ("rule:ordinal: tens and unit|number: tens+ordinal: words", 223),
  ("rule:ordinal: words", 522),
  ("rule:percentage: number percent", 471),
  ("rule:percentage: number percent|number: decimal", 186),
  ("rule:percentage: number percent|number: digits", 186),
  ("rule:percentage: number percent|number: zero..nineteen", 100),
  ("rule:temperature: bare number", -4065),
  ("rule:temperature: bare number|number: comma grouped digits", -226),
  ("rule:temperature: bare number|number: decimal", -395),
  ("rule:temperature: bare number|number: digits", -332),
  ("rule:temperature: bare number|number: multiply", -737),
  ("rule:temperature: bare number|number: negative", 1021),
  ("rule:temperature: bare number|number: powers of ten", -607),
  ("rule:temperature: bare number|number: sum", -1727),
  ("rule:temperature: bare number|number: tens", 11),
  ("rule:temperature: bare number|number: zero..nineteen", -1074),
  ("rule:temperature: degrees", -141),
  ("rule:temperature: degrees|temperature: bare number", -141),
  ("rule:temperature: named scale", -149),
  ("rule:temperature: named scale|temperature: bare number", 154),
  ("rule:temperature: named scale|temperature: degrees", -303),
  ("rule:temperature: scale letter", -266),
  ("rule:temperature: scale letter|temperature: degrees", -266)]

def defaultWeights : Weights :=
  { intercept := 1772, table := defaultTable }

end Reckon.English

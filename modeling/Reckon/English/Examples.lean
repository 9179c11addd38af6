import Reckon.Check

/-!
The English corpus: texts with the meaning they have on Tuesday 12 February 2013, 04:30 UTC. Weights
are trained on it.
-/

set_option autoImplicit false

namespace Reckon.English.Examples

def meaning (check : Check) (texts : List String) : Example := { texts, check }

def decimal (digits places : Nat) : Binary64 := Binary64.ofDecimal digits places

def integer (n : Int) : Check := .integer (.int n)

def float (x : Binary64) : Check := .float (.float x)

def ordinal (n : Int) : Check := .ordinal (.int n)

def percentage (x : Binary64) : Check := .percentage (.float x)

def temperature (x : Binary64) (unit : String) : Check := .temperature (.float x) (some unit)

def money (x : Binary64) (unit : String) : Check := .money (.float x) (some unit) .exact

def moneyAbout (x : Binary64) (unit : String) : Check := .money (.float x) (some unit) .approximate

def duration (period : Period) : Check := .duration period .exact

def durationAbout (period : Period) : Check := .duration period .approximate

def moment (fields : List Int) (grain : Grain) : Check := .moment fields grain

def interval (start stop : List Int) (grain : Grain) : Check := .interval start stop grain

def numbers : List Example :=
  [ meaning (integer 0) ["0", "zero"],
    meaning (integer 1) ["1", "one"],
    meaning (integer 12) ["12", "twelve"],
    meaning (integer 21) ["21", "twenty-one", "twenty one"],
    meaning (integer 33) ["33", "thirty three", "thirty-three"],
    meaning (integer 100) ["100", "one hundred", "hundred"],
    meaning (integer 105) ["105", "one hundred and five", "one hundred five"],
    meaning (integer 1200) ["1,200", "1200", "one thousand two hundred", "twelve hundred"],
    meaning (integer 5000000) ["5000000", "five million", "5,000,000"],
    meaning (integer 1521082)
      ["1521082", "1,521,082", "one million five hundred twenty-one thousand eighty-two"],
    meaning (integer (-5)) ["-5", "minus five", "negative 5"],
    meaning (float (decimal 35 1)) ["3.5"],
    meaning (float (decimal 25 2)) ["0.25", ".25"] ]

def ordinals : List Example :=
  [ meaning (ordinal 1) ["first", "1st"],
    meaning (ordinal 3) ["third", "3rd"],
    meaning (ordinal 12) ["twelfth", "12th"],
    meaning (ordinal 21) ["twenty-first", "twenty first", "21st"] ]

def measures : List Example :=
  [ meaning (percentage (decimal 12 0)) ["12%", "12 percent", "twelve per cent"],
    meaning (percentage (decimal 35 1)) ["3.5%", "3.5 percent"],
    meaning (temperature (decimal 20 0) "degree") ["20 degrees", "20°", "twenty degrees"],
    meaning (temperature (decimal 20 0) "celsius") ["20 degrees celsius", "20°C", "20 celsius"],
    meaning (temperature ((decimal 5 0).neg) "fahrenheit")
      ["-5 degrees fahrenheit", "minus five °F"] ]

def amounts : List Example :=
  [ meaning (money (decimal 20 0) "$") ["$20", "20 dollars", "20$", "twenty bucks"],
    meaning (money (decimal 52 1) "$") ["$5.20"],
    meaning (money (decimal 10 0) "EUR") ["€10", "10 euros", "EUR 10", "10 eur"],
    meaning (money (decimal 3 0) "GBP") ["£3", "3 pounds"],
    meaning (money (decimal 50 0) "cent") ["50 cents", "fifty cents"],
    meaning (moneyAbout (decimal 20 0) "$") ["about $20", "around 20 dollars"] ]

def durations : List Example :=
  [ meaning (duration [(.day, 3)]) ["3 days", "three days"],
    meaning (duration [(.hour, 1)]) ["an hour", "1 hour", "one hour"],
    meaning (duration [(.minute, 30)]) ["half an hour", "30 minutes", "30 mins"],
    meaning (duration [(.hour, 2), (.minute, 15)]) ["2 hours and 15 minutes", "2 hours 15 minutes"],
    meaning (duration [(.week, 1)]) ["a week", "one week"],
    meaning (durationAbout [(.day, 2)]) ["about 2 days", "around two days"] ]

def datetimes : List Example :=
  [ meaning (moment [2013, 2, 12, 4, 30] .second) ["now", "right now"],
    meaning (moment [2013, 2, 12] .day) ["today", "this tuesday"],
    meaning (moment [2013, 2, 13] .day) ["tomorrow"],
    meaning (moment [2013, 2, 11] .day) ["yesterday", "last monday"],
    meaning (moment [2013, 2, 14] .day) ["the day after tomorrow"],
    meaning (moment [2013, 2, 18] .week) ["next week"],
    meaning (moment [2013, 3, 1] .month) ["next month"],
    meaning (moment [2013, 1, 1] .month) ["last month"],
    meaning (moment [2013, 1, 1] .year) ["this year"],
    meaning (moment [2013, 2, 15] .day) ["friday", "next friday", "this friday"],
    meaning (moment [2013, 2, 18] .day) ["monday", "next monday"],
    meaning (moment [2013, 2, 19] .day) ["tuesday", "next tuesday"],
    meaning (moment [2013, 5, 12] .day) ["may 12", "12th of may", "the 12th of may", "may 12th"],
    meaning (moment [2017, 5, 12] .day) ["friday the 12th of may", "friday, may 12"],
    meaning (moment [2024, 5, 12] .day)
      ["may 12 2024", "may 12, 2024", "2024-05-12", "5/12/2024", "12th may 2024"],
    meaning (moment [2015, 3, 1] .month) ["march 2015"],
    meaning (moment [2015, 1, 1] .year) ["in 2015"],
    meaning (moment [2013, 2, 12, 15, 0] .hour) ["3pm", "3 pm", "15:00", "at 3pm", "at 15:00"],
    meaning (moment [2013, 2, 12, 15, 30] .minute) ["3:30pm", "15:30", "at 3:30 pm"],
    meaning (moment [2013, 2, 12, 12, 0] .hour) ["noon", "at noon"],
    meaning (moment [2013, 2, 13, 0, 0] .hour) ["midnight"],
    meaning (moment [2013, 2, 13, 15, 0] .hour) ["tomorrow at 3pm", "tomorrow 3pm", "3pm tomorrow"],
    meaning (moment [2013, 2, 13, 5, 0] .hour) ["tomorrow at 5"],
    meaning (moment [2013, 2, 15, 0, 0] .day) ["in three days", "in 3 days", "3 days from now"],
    meaning (moment [2013, 2, 12, 2, 30] .hour) ["2 hours ago", "two hours ago"],
    meaning (moment [2013, 2, 12, 5, 0] .minute) ["in 30 minutes", "in half an hour"],
    meaning (moment [2013, 2, 5] .day) ["a week ago", "one week ago"],
    meaning (interval [2013, 2, 18] [2013, 2, 22] .day)
      ["from monday to friday", "between monday and friday"],
    meaning (interval [2013, 2, 12, 15] [2013, 2, 12, 17] .hour)
      ["from 3pm to 5pm", "between 3pm and 5pm"] ]

def all : List Example :=
  numbers ++ ordinals ++ measures ++ amounts ++ durations ++ datetimes

end Reckon.English.Examples

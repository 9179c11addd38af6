import Reckon.Binary64.Basic
import Reckon.Calendar.Date

/-!
Readings: what the rules take from outside the grammar. They say what a number word, an ordinal
word, an amount after a currency symbol and a date with slashes stand for. The rules are laid out
for any readings; the usual ones are put together in `Rules`.
-/

set_option autoImplicit false

namespace Reckon.English

structure Price where
  amount : Binary64
  currency : Option (List Char)
deriving DecidableEq, Repr

structure Readings where
  /-- The number of a single word in lower case. -/
  number : String → Option Int
  /-- The number of a single ordinal word in lower case. -/
  ordinal : String → Option Int
  price : List Char → Option Price
  date : List Char → Option Date

end Reckon.English

import Reckon.Failure
import Reckon.Text.Blank
import Reckon.Text.LetterCase

/-!
Grains of time, from the second to the year, in order of size.
-/

set_option autoImplicit false

namespace Reckon

inductive Grain where
  | second | minute | hour | day | week | month | year
deriving DecidableEq, Repr, Inhabited

namespace Grain

def all : List Grain := [second, minute, hour, day, week, month, year]

def size : Grain → Nat
  | second => 0
  | minute => 1
  | hour => 2
  | day => 3
  | week => 4
  | month => 5
  | year => 6

def label : Grain → String
  | second => "second"
  | minute => "minute"
  | hour => "hour"
  | day => "day"
  | week => "week"
  | month => "month"
  | year => "year"

def unit (g : Grain) : String :=
  g.label ++ "s"

def finer (a b : Grain) : Grain :=
  if b.size < a.size then b else a

def coarser (a b : Grain) : Grain :=
  if a.size < b.size then b else a

theorem size_injective {a b : Grain} (same : a.size = b.size) : a = b := by
  cases a <;> cases b <;> simp_all [size]

def ofSize? (n : Int) : Option Grain :=
  all.find? fun g => (g.size : Int) == n

theorem of_size?_size (g : Grain) : ofSize? g.size = some g := by
  cases g <;> rfl

def singular (cs : List Char) : List Char :=
  if cs.getLast? = some 'S' then cs.dropLast else cs

def ofName (name : String) : Except Failure Grain :=
  let key := singular (Text.upper (Text.trimString name)).toList
  match all.find? fun g => (Text.upper g.label).toList == key with
  | some g => .ok g
  | none => .error (.setting (.unknownGrain name))

end Grain

/-- An amount of time: counts of grains, to be added one after the other. -/
abbrev Period := List (Grain × Int)

namespace Period

def finest? : Period → Option Grain
  | [] => none
  | (g, _) :: rest => some (rest.foldl (fun least part => least.finer part.1) g)

def coarsest? : Period → Option Grain
  | [] => none
  | (g, _) :: rest => some (rest.foldl (fun most part => most.coarser part.1) g)

end Period

end Reckon

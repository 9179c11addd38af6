import Reckon.Text.Blank
import Reckon.Text.Digit
import Reckon.Text.WordChar

/-!
Text patterns and what they match. `run` lists every way a pattern can match from a place, the
preferred one first: an alternative before the next one, more repetitions before fewer. `matchAt`
takes the first of them, and `findAll` the successive matches in a text, none of which overlaps
another. Where a match is empty, the next one may start at the same place, but is not empty.

Letters match in either case, and three of them also the letters outside ASCII that fold to them.
-/

set_option autoImplicit false

namespace Reckon

inductive CharClass where
  | exactly (c : Char)
  /-- A lower-case ASCII letter, in either case. -/
  | letter (c : Char)
  | anyLetter
  | digit
  /-- An ASCII character between two others. -/
  | between (low high : Char)
  | blank
  | word
  | either (left right : CharClass)
deriving DecidableEq, Repr

namespace CharClass

/-- The letter outside ASCII that folds to the given ASCII letter. -/
def foldsTo : Char → Option Nat
  | 'i' => some 0x130
  | 's' => some 0x17F
  | 'k' => some 0x212A
  | _ => none

def matchesLetter (letter c : Char) : Bool :=
  c.toLower == letter || foldsTo letter == some c.toNat

def accepts : CharClass → Char → Bool
  | exactly d, c => c == d
  | letter l, c => matchesLetter l c
  | anyLetter, c => c.isAlpha || [0x130, 0x17F, 0x212A].contains c.toNat
  | digit, c => Text.isDigit c
  | between low high, c => low ≤ c && c ≤ high
  | blank, c => Text.isBlank c
  | word, c => Text.isWordChar c
  | either left right, c => left.accepts c || right.accepts c

end CharClass

inductive Pattern where
  | empty
  | one (cls : CharClass)
  | seq (first second : Pattern)
  | alt (first second : Pattern)
  /-- At least `least` and, where given, at most `most` times; more is preferred. -/
  | repeated (body : Pattern) (least : Nat) (most : Option Nat)
  /-- Remembers what `body` matched under a number. -/
  | group (index : Nat) (body : Pattern)
  /-- A place with a word character on exactly one side. -/
  | edge
  | notAhead (body : Pattern)
  /-- The characters just before are not, in order, of these classes. -/
  | notBehind (classes : List CharClass)
deriving DecidableEq, Repr

namespace Pattern

/-- A place reached in a text, with the groups matched on the way, newest first. -/
structure Cursor where
  pos : Nat
  groups : List (Nat × Nat × Nat)
deriving DecidableEq, Repr

def isWordAt (text : Array Char) (pos : Nat) : Bool :=
  match text[pos]? with
  | some c => Text.isWordChar c
  | none => false

def isEdge (text : Array Char) (pos : Nat) : Bool :=
  (pos != 0 && isWordAt text (pos - 1)) != isWordAt text pos

def precededBy (text : Array Char) (pos : Nat) (classes : List CharClass) : Bool :=
  classes.length ≤ pos &&
    (classes.zipIdx (pos - classes.length)).all fun (cls, i) =>
      match text[i]? with
      | some c => cls.accepts c
      | none => false

def times (step : Cursor → List Cursor) : Nat → Cursor → List Cursor
  | 0, cursor => [cursor]
  | n + 1, cursor => (step cursor).flatMap fun next => times step n next

/-- Repeats `step` at most so many times, and not again after a step that stands still. -/
def upTo (step : Cursor → List Cursor) : Nat → Option Nat → Cursor → List Cursor
  | 0, _, cursor => [cursor]
  | fuel + 1, most, cursor =>
    let further :=
      if most = some 0 then []
      else (step cursor).flatMap fun next =>
        if next.pos ≤ cursor.pos then [next] else upTo step fuel (most.map (· - 1)) next
    further ++ [cursor]

/-- Every way to match from a cursor, the preferred one first. -/
def run (text : Array Char) : Pattern → Cursor → List Cursor
  | empty, cursor => [cursor]
  | one cls, cursor =>
    match text[cursor.pos]? with
    | some c => if cls.accepts c then [{ cursor with pos := cursor.pos + 1 }] else []
    | none => []
  | seq first second, cursor => (run text first cursor).flatMap fun next => run text second next
  | alt first second, cursor => run text first cursor ++ run text second cursor
  | repeated body least most, cursor =>
    let step := fun next => run text body next
    (times step least cursor).flatMap fun next =>
      upTo step (text.size + 1 - next.pos) (most.map (· - least)) next
  | group index body, cursor =>
    (run text body cursor).map fun next =>
      { next with groups := (index, cursor.pos, next.pos) :: next.groups }
  | edge, cursor => if isEdge text cursor.pos then [cursor] else []
  | notAhead body, cursor => if (run text body cursor).isEmpty then [cursor] else []
  | notBehind classes, cursor => if precededBy text cursor.pos classes then [] else [cursor]

/-- A successful match: where it lies, its characters, and the characters of its groups. -/
structure Match where
  start : Nat
  stop : Nat
  content : List Char
  groups : List (Nat × List Char)
deriving DecidableEq, Repr

def Match.group? (m : Match) (index : Nat) : Option (List Char) :=
  (m.groups.find? (·.1 == index)).map (·.2)

def charsBetween (text : Array Char) (start stop : Nat) : List Char :=
  (text.extract start stop).toList

def Match.ofCursor (text : Array Char) (start : Nat) (cursor : Cursor) : Match :=
  { start
    stop := cursor.pos
    content := charsBetween text start cursor.pos
    groups := cursor.groups.map fun (index, start, stop) => (index, charsBetween text start stop) }

def matchAt (text : Array Char) (p : Pattern) (pos : Nat) : Option Match :=
  (p.run text ⟨pos, []⟩).head?.map (Match.ofCursor text pos)

def filledMatchAt (text : Array Char) (p : Pattern) (pos : Nat) : Option Match :=
  ((p.run text ⟨pos, []⟩).find? fun cursor => pos < cursor.pos).map (Match.ofCursor text pos)

/-- The matches from `pos` up to the end of the text. After an empty match the search stays for a
match that is not, before it goes on one place further. -/
def findFrom (text : Array Char) (p : Pattern) : Nat → Nat → List Match
  | 0, _ => []
  | fuel + 1, pos =>
    if text.size < pos then []
    else match p.matchAt text pos with
      | none => findFrom text p fuel (pos + 1)
      | some m =>
        if pos < m.stop then m :: findFrom text p fuel m.stop
        else match p.filledMatchAt text pos with
          | none => m :: findFrom text p fuel (pos + 1)
          | some n => m :: n :: findFrom text p fuel n.stop

def findAll (text : Array Char) (p : Pattern) : List Match :=
  findFrom text p (text.size + 1) 0

end Pattern

end Reckon

/-!
Positions in a text. A span is a half-open range; a text of characters also has byte positions,
those of its UTF-8 form.
-/

set_option autoImplicit false

namespace Reckon

/-- The half-open range from `start` up to, not including, `stop`. -/
@[ext]
structure Span where
  start : Int
  stop : Int
deriving DecidableEq, Repr

namespace Span

def length? (s : Span) : Option Nat :=
  if s.start ≤ s.stop then some (s.stop - s.start).toNat else none

def overlaps (a b : Span) : Bool :=
  a.start < b.stop && b.start < a.stop

def contains (a b : Span) : Bool :=
  a.start ≤ b.start && b.stop ≤ a.stop

theorem overlaps_comm (a b : Span) : a.overlaps b = b.overlaps a := by
  simp [overlaps, Bool.and_comm]

end Span

namespace Text

def byteOffsetsFrom : Nat → List Char → List Nat
  | offset, [] => [offset]
  | offset, c :: rest => offset :: byteOffsetsFrom (offset + c.utf8Size) rest

def byteOffsets (text : Array Char) : Array Nat :=
  (byteOffsetsFrom 0 text.toList).toArray

def slice (text : Array Char) (start stop : Nat) : List Char :=
  (text.extract start stop).toList

end Text

end Reckon

/-!
White space. `isBlank` is the Unicode property White_Space, which separates the parts of an
expression; names and whole texts are trimmed of four separator controls as well (`isTrimmed`).
-/

set_option autoImplicit false

namespace Reckon.Text

/-- The characters of the Unicode property White_Space. -/
def isBlank (c : Char) : Bool :=
  let n := c.toNat
  (0x09 ≤ n && n ≤ 0x0D) || n == 0x20 || n == 0x85 || n == 0xA0 || n == 0x1680 ||
    (0x2000 ≤ n && n ≤ 0x200A) || n == 0x2028 || n == 0x2029 || n == 0x202F || n == 0x205F ||
    n == 0x3000

/-- White space, and the information separators U+001C to U+001F. -/
def isTrimmed (c : Char) : Bool :=
  isBlank c || (0x1C ≤ c.toNat && c.toNat ≤ 0x1F)

theorem is_trimmed_of_is_blank {c : Char} (blank : isBlank c = true) : isTrimmed c = true := by
  simp [isTrimmed, blank]

def trim (cs : List Char) : List Char :=
  ((cs.dropWhile isTrimmed).reverse.dropWhile isTrimmed).reverse

def trimString (s : String) : String :=
  String.ofList (trim s.toList)

def leadingTrimmed (cs : List Char) : Nat :=
  (cs.takeWhile isTrimmed).length

end Reckon.Text

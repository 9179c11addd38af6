import Reckon.Pattern.Basic

/-!
Words for writing patterns: literal text, alternatives, counts and whole words.
-/

set_option autoImplicit false

namespace Reckon.Pattern

/-- The class of a literal character: a letter in either case, any other character as it stands. -/
def literalClass (c : Char) : CharClass :=
  if c.isAlpha then .letter c.toLower else .exactly c

def sequence : List Pattern → Pattern
  | [] => empty
  | [p] => p
  | p :: rest => seq p (sequence rest)

def anyOf : List Pattern → Pattern
  | [] => notAhead empty
  | [p] => p
  | p :: rest => alt p (anyOf rest)

def literal (s : String) : Pattern :=
  sequence (s.toList.map fun c => one (literalClass c))

def words (options : List String) : Pattern :=
  anyOf (options.map literal)

def optional (p : Pattern) : Pattern :=
  repeated p 0 (some 1)

def many (p : Pattern) : Pattern :=
  repeated p 0 none

def some (p : Pattern) : Pattern :=
  repeated p 1 none

def exactly (n : Nat) (p : Pattern) : Pattern :=
  repeated p n (Option.some n)

def whole (p : Pattern) : Pattern :=
  seq edge (seq p edge)

def wholeWord (options : List String) : Pattern :=
  whole (words options)

def digit : Pattern := one .digit

def blank : Pattern := one .blank

def char (c : Char) : Pattern := one (.exactly c)

def charIn : List Char → Pattern
  | [] => notAhead empty
  | c :: rest => one (rest.foldl (fun cls d => .either cls (.exactly d)) (.exactly c))

end Reckon.Pattern

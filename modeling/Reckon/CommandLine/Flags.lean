import Reckon.Text.Digit

/-!
Flags of a command line. A flag is given by one of its names or by the start of a long name that no
other name shares; its value is the next word or is attached to it. Words that belong to no flag are
the text. Reading goes from left to right and stops at the first word that asks for help or is
wrong.
-/

set_option autoImplicit false

namespace Reckon.CommandLine

inductive Arity where
  | none
  | one
  /-- All plain words up to the next flag. -/
  | many
deriving DecidableEq, Repr

structure Flag where
  names : List String
  arity : Arity
  /-- Whether a value is allowed. -/
  accepts : String → Bool := fun _ => true

namespace Flag

def key (f : Flag) : String :=
  f.names.headD ""

end Flag

structure Usage where
  flags : List Flag
  takesText : Bool

def helpFlag : Flag := { names := ["--help", "-h"], arity := .none }

/-- What is wrong with a command line, or what it asks for instead of a run. -/
inductive Refusal where
  | misuse
  | help
deriving DecidableEq, Repr

inductive Word where
  | plain (s : String)
  /-- The word that makes all words after it plain. -/
  | dashes
  | flag (f : Flag) (attached : Option String)
  /-- A word in the form of a flag that is none. -/
  | unknown

def splitAtEquals (cs : List Char) : List Char × Option (List Char) :=
  match cs.dropWhile (· ≠ '=') with
  | [] => (cs, none)
  | _ :: rest => (cs.takeWhile (· ≠ '='), some rest)

/-- Whether a word after a hyphen is a number: digits, perhaps with a point before the last of
them. -/
def isNumber (cs : List Char) : Bool :=
  match cs.dropWhile Text.isDigit with
  | [] => !cs.isEmpty
  | '.' :: fraction => !fraction.isEmpty && fraction.all Text.isDigit
  | _ => false

namespace Usage

def allFlags (u : Usage) : List Flag :=
  helpFlag :: u.flags

def namedFlags (u : Usage) : List (String × Flag) :=
  u.allFlags.flatMap fun f => f.names.map fun name => (name, f)

def named? (u : Usage) (name : String) : Option Flag :=
  u.namedFlags.lookup name

def abbreviated (u : Usage) (cs : List Char) : List Word :=
  let (start, attached) := splitAtEquals cs
  (u.namedFlags.filter fun (name, _) => start.isPrefixOf name.toList).map fun (_, f) =>
    .flag f (attached.map String.ofList)

def clustered (u : Usage) (cs : List Char) : List Word :=
  let short := String.ofList (cs.take 2)
  u.namedFlags.filterMap fun (name, f) =>
    if name == short then some (.flag f (some (String.ofList (cs.drop 2)))) else none

/-- The reading of a word that starts with a hyphen and is no flag's full name. -/
def readLoose (u : Usage) (s : String) : Except Refusal Word :=
  let cs := s.toList
  let readings := if "--".toList.isPrefixOf cs then u.abbreviated cs else u.clustered cs
  match readings with
  | [w] => .ok w
  | _ :: _ :: _ => .error .misuse
  | [] =>
    if isNumber cs.tail || cs.contains ' ' then .ok (.plain s) else .ok .unknown

def readWord (u : Usage) (s : String) : Except Refusal Word :=
  if s.toList.head? ≠ some '-' || s == "-" then .ok (.plain s)
  else match u.named? s with
    | some f => .ok (.flag f none)
    | none =>
      match splitAtEquals s.toList with
      | (name, some value) =>
        match u.named? (String.ofList name) with
        | some f => .ok (.flag f (some (String.ofList value)))
        | none => u.readLoose s
      | (_, none) => u.readLoose s

/-- The readings of all words; after two hyphens all are plain. -/
def readWords (u : Usage) : List String → Except Refusal (List Word)
  | [] => .ok []
  | s :: rest =>
    if s == "--" then .ok (.dashes :: rest.map .plain)
    else do return (← u.readWord s) :: (← u.readWords rest)

end Usage

/-- What a command line gives. The text is absent until its words have been met; `extra` tells that
a word has no place. -/
structure Given where
  values : List (String × List String) := []
  text : Option (List String) := none
  extra : Bool := false

namespace Given

def put (g : Given) (f : Flag) (values : List String) : Except Refusal Given :=
  if f.key == helpFlag.key then .error .help
  else if values.all f.accepts then .ok { g with values := (f.key, values) :: g.values }
  else .error .misuse

def get? (g : Given) (key : String) : Option (List String) :=
  g.values.lookup key

def value? (g : Given) (key : String) : Option String :=
  (g.get? key).bind (·.head?)

def has (g : Given) (key : String) : Bool :=
  (g.get? key).isSome

end Given

def plainWord? : Word → Option String
  | .plain s => some s
  | _ => none

def plainRun : List Word → List String
  | .plain s :: rest => s :: plainRun rest
  | _ => []

/-- Puts a word of the text where its words have their place: in one run. -/
def Given.addText (g : Given) (takesText inRun : Bool) (word : Option String) : Given :=
  match g.text with
  | none => if takesText then { g with text := some word.toList } else { g with extra := true }
  | some words =>
    if inRun then { g with text := some (words ++ word.toList) } else { g with extra := true }

/-- Takes the words in order. `skip` counts the words that a flag before them has taken, `inRun`
tells whether the word before was part of the text. -/
def take (takesText : Bool) : List Word → Nat → Bool → Given → Except Refusal Given
  | [], _, _, g => if g.extra then .error .misuse else .ok g
  | _ :: rest, skip + 1, _, g => take takesText rest skip false g
  | .plain s :: rest, 0, inRun, g => take takesText rest 0 true (g.addText takesText inRun (some s))
  | .dashes :: rest, 0, inRun, g => take takesText rest 0 true (g.addText takesText inRun none)
  | .unknown :: rest, 0, _, g => take takesText rest 0 false { g with extra := true }
  | .flag f attached :: rest, 0, _, g =>
    match f.arity, attached with
    | .none, none => do take takesText rest 0 false (← g.put f [])
    | .none, some _ => .error .misuse
    | .one, some value | .many, some value => do take takesText rest 0 false (← g.put f [value])
    | .one, none =>
      match rest.head?.bind plainWord? with
      | some value => do take takesText rest 1 false (← g.put f [value])
      | none => .error .misuse
    | .many, none => do
      let values := plainRun rest
      take takesText rest values.length false (← g.put f values)

def Usage.read (u : Usage) (words : List String) : Except Refusal Given := do
  take u.takesText (← u.readWords words) 0 false {}

end Reckon.CommandLine

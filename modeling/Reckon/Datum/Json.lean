import Reckon.Datum

/-!
The JSON text of a datum: on one line, or indented by two spaces for each level. Characters beyond
ASCII are written as they are.
-/

set_option autoImplicit false

namespace Reckon.Json

def escape (c : Char) : List Char :=
  match c with
  | '"' => ['\\', '"']
  | '\\' => ['\\', '\\']
  | '\n' => ['\\', 'n']
  | '\r' => ['\\', 'r']
  | '\t' => ['\\', 't']
  | '\x08' => ['\\', 'b']
  | '\x0c' => ['\\', 'f']
  | c => if c.toNat < 0x20 then '\\' :: 'u' :: Text.hexPadded 4 c.toNat else [c]

def string (s : String) : String :=
  String.ofList ('"' :: s.toList.flatMap escape ++ ['"'])

def float (x : Binary64) : String :=
  x.text "Infinity" "NaN"

def inline (opening closing : String) (members : List String) : String :=
  opening ++ ", ".intercalate members ++ closing

def newLine (depth : Nat) : String :=
  String.ofList ('\n' :: List.replicate (2 * depth) ' ')

def block (depth : Nat) (opening closing : String) (members : List String) : String :=
  if members.isEmpty then opening ++ closing
  else
    let inner := newLine (depth + 1)
    opening ++ inner ++ ("," ++ inner).intercalate members ++ newLine depth ++ closing

mutual

def compact : Datum → String
  | .null => "null"
  | .truth b => if b then "true" else "false"
  | .int n => toString n
  | .float x => float x
  | .text s => string s
  | .list ds => inline "[" "]" (compactItems ds)
  | .record fields => inline "\x7b" "\x7d" (compactFields fields)

def compactItems : List Datum → List String
  | [] => []
  | d :: rest => compact d :: compactItems rest

def compactFields : List (String × Datum) → List String
  | [] => []
  | (key, d) :: rest => (string key ++ ": " ++ compact d) :: compactFields rest

end

mutual

def indented (depth : Nat) : Datum → String
  | .null => "null"
  | .truth b => if b then "true" else "false"
  | .int n => toString n
  | .float x => float x
  | .text s => string s
  | .list ds => block depth "[" "]" (indentedItems depth ds)
  | .record fields => block depth "\x7b" "\x7d" (indentedFields depth fields)

def indentedItems (depth : Nat) : List Datum → List String
  | [] => []
  | d :: rest => indented (depth + 1) d :: indentedItems depth rest

def indentedFields (depth : Nat) : List (String × Datum) → List String
  | [] => []
  | (key, d) :: rest =>
    (string key ++ ": " ++ indented (depth + 1) d) :: indentedFields depth rest

end

end Reckon.Json

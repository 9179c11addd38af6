import Reckon.Scoring.Record
import Reckon.Text.Quoted

/-!
The text of a model file: a header and a sequence of fields, each written as its length, a colon and
its characters. `render` writes a model; `read` takes it back, or tells why a text is no model file.
-/

set_option autoImplicit false

namespace Reckon.ModelFile

def header : List Char := "judge;".toList

def field (cs : List Char) : List Char :=
  (toString cs.length).toList ++ ':' :: cs

def flagText : Option String → String
  | some s => "+" ++ s
  | none => "-"

def fieldsOf (m : Model) : List (List Char) :=
  [m.lang.toList, (flagText m.fingerprint).toList, [if m.complemented then '1' else '0'],
    (toString m.weights.scale).toList, (toString m.weights.intercept).toList] ++
    m.weights.table.flatMap fun (name, weight) => [name.toList, (toString weight).toList]

def render (m : Model) : String :=
  String.ofList (header ++ (fieldsOf m).flatMap field)

def readField (cs : List Char) : Option (List Char × List Char) :=
  let digits := cs.takeWhile Char.isDigit
  match (String.ofList digits).toNat?, cs.drop digits.length with
  | some length, ':' :: rest =>
    if length ≤ rest.length then some (rest.take length, rest.drop length) else none
  | _, _ => none

/-- All fields up to the end; `fuel` is at least their number. -/
def readFields : Nat → List Char → Option (List (List Char))
  | _, [] => some []
  | 0, _ => none
  | fuel + 1, cs => do
    let (f, rest) ← readField cs
    return f :: (← readFields fuel rest)

def readInt? (cs : List Char) : Option Int :=
  (String.ofList cs).toInt?

def readTable : List (List Char) → Option (List (String × Int))
  | [] => some []
  | name :: weight :: rest => do
    return (String.ofList name, ← readInt? weight) :: (← readTable rest)
  | [_] => none

def readFlag : List Char → Option String
  | '+' :: cs => some (String.ofList cs)
  | _ => none

def modelOf : List (List Char) → Option Model
  | lang :: fingerprint :: complemented :: scale :: intercept :: rest => do
    let weights : Weights :=
      { intercept := ← readInt? intercept
        table := ← readTable rest
        scale := ← (String.ofList scale).toNat? }
    return { weights, complemented := complemented == ['1'], lang := String.ofList lang
             fingerprint := readFlag fingerprint }
  | _ => none

def keyText (c : Char) : String :=
  let n := c.toNat
  if 0x20 ≤ n && n < 0x7F then String.ofList [c]
  else
    let first := (String.ofList [c]).toUTF8.toList.headD 0
    "\\x" ++ String.ofList (Text.hexPadded 2 first.toNat)

def fault (cs : List Char) : String :=
  match cs with
  | [] => "Ran out of input"
  | c :: _ =>
    if header.head? = some c then "pickle data was truncated"
    else "invalid load key, '" ++ keyText c ++ "'."

def read (content : String) : Stored :=
  let cs := content.toList
  let model? :=
    if header.isPrefixOf cs then
      let body := cs.drop header.length
      (readFields body.length body).bind modelOf
    else none
  match model? with
  | some m => .record m.toRecord
  | none => .unreadable (fault cs)

end Reckon.ModelFile

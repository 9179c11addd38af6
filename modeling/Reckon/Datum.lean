import Reckon.Binary64.Shortest
import Reckon.Text.Quoted

/-!
Data of no fixed type, as settings and stored models hold them, and their texts: `shown` for
messages, `label` for names.
-/

set_option autoImplicit false

namespace Reckon

inductive Datum where
  | null
  | truth (b : Bool)
  | int (n : Int)
  | float (x : Binary64)
  | text (s : String)
  | list (ds : List Datum)
  | record (fields : List (String × Datum))
deriving Repr, Inhabited

namespace Datum

mutual

def shown : Datum → String
  | null => "None"
  | truth b => if b then "True" else "False"
  | int n => toString n
  | float x => x.text "inf" "nan"
  | text s => Text.quoted s
  | list ds => "[" ++ ", ".intercalate (shownItems ds) ++ "]"
  | record fields => "\x7b" ++ ", ".intercalate (shownFields fields) ++ "\x7d"

def shownItems : List Datum → List String
  | [] => []
  | d :: rest => d.shown :: shownItems rest

def shownFields : List (String × Datum) → List String
  | [] => []
  | (key, d) :: rest => (Text.quoted key ++ ": " ++ d.shown) :: shownFields rest

end

def label : Datum → String
  | text s => s
  | d => d.shown

def typeName : Datum → String
  | null => "NoneType"
  | truth _ => "bool"
  | int _ => "int"
  | float _ => "float"
  | text _ => "str"
  | list _ => "list"
  | record _ => "dict"

end Datum

end Reckon

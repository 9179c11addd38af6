import Reckon.Scoring.Record
import Reckon.Text.LetterCase

/-!
The place where models are kept: a table from paths to what is stored there.
-/

set_option autoImplicit false

namespace Reckon

/-- A path below a directory; an absolute path stands for itself. -/
def joinPath (directory file : String) : String :=
  if file.startsWith "/" then file
  else if directory.isEmpty || directory.endsWith "/" then directory ++ file
  else directory ++ "/" ++ file

structure ModelStore where
  entries : List (String × Stored) := []

namespace ModelStore

def get? (s : ModelStore) (path : String) : Option Stored :=
  s.entries.lookup path

def put (s : ModelStore) (path : String) (content : Stored) : ModelStore :=
  ⟨(path, content) :: s.entries⟩

def erase (s : ModelStore) (path : String) : Except Failure ModelStore :=
  if (s.get? path).isSome then .ok ⟨s.entries.filter (·.1 != path)⟩ else .error .noSuchFile

theorem get?_put_self (s : ModelStore) (path : String) (content : Stored) :
    (s.put path content).get? path = some content := by
  simp [get?, put]

/-- Whether a model serves a language: by the language it was trained for, in any case, or because
it names none. -/
def serves (m : Model) (wanted : String) : Bool :=
  m.lang.isEmpty || Text.upper m.lang == Text.upper wanted

def load (s : ModelStore) (path wanted : String) : Except ModelFault Model :=
  match s.get? path with
  | none => .error (.missing path)
  | some content => do
    let m ← Model.ofStored path content
    if serves m wanted then .ok m else .error (.otherLanguage path m.lang wanted)

end ModelStore

end Reckon

import Reckon.Datum
import Reckon.Failure
import Reckon.Scoring.Model

/-!
Stored models. A model is kept as a record of four entries: the two parts of the classifier, the
language it was trained for and the fingerprint of its rules. `ofStored` takes a model out of what
is stored and says what is wrong with anything that is not one; `Model.toRecord` is its inverse.
-/

set_option autoImplicit false

namespace Reckon

inductive Part where
  | fitted
  | unfitted
  /-- Something that is no such part. -/
  | foreign
deriving DecidableEq, Repr

/-- A record, in which each entry may be absent. The weights and the classes are those of its
parts. -/
structure ModelRecord where
  vectorizer : Option Part := some .fitted
  regression : Option Part := some .fitted
  lang : Option Datum
  fingerprint : Option (Option String)
  classes : List Int := [0, 1]
  weights : Weights

inductive Stored where
  | record (r : ModelRecord)
  /-- Data of another type. -/
  | other (typeName : String)
  /-- Bytes that cannot be read. -/
  | unreadable (reason : String)

namespace ModelRecord

def keys : List String :=
  ["vectorizer", "sklearn_lr", "lang", "feature_fingerprint"]

def missing (r : ModelRecord) : List String :=
  let present := [r.vectorizer.isSome, r.regression.isSome, r.lang.isSome, r.fingerprint.isSome]
  (keys.zip present).filterMap fun (key, here) => if here then none else some key

def rightClass : Int := 1

/-- Takes the model out of a record: its entries have to be there, its parts have to be fitted parts
of a classifier, and one of its classes has to be that of right parses. -/
def toModel (r : ModelRecord) : Except ModelFault Model :=
  match r.vectorizer, r.regression, r.lang, r.fingerprint with
  | some vectorizer, some regression, some lang, some fingerprint =>
    if vectorizer = .foreign || regression = .foreign then .error .wrongParts
    else if vectorizer = .unfitted || regression = .unfitted then .error .unfitted
    else if !r.classes.contains rightClass then .error .noPositiveClass
    else
      .ok
        { weights := r.weights
          complemented := r.classes.head? = some rightClass
          lang := lang.label
          fingerprint }
  | _, _, _, _ => .error (.missingEntries r.missing)

end ModelRecord

namespace Model

def toRecord (m : Model) : ModelRecord :=
  { lang := some (.text m.lang)
    fingerprint := some m.fingerprint
    classes := if m.complemented then [1, 2] else [0, 1]
    weights := m.weights }

def ofStored (path : String) : Stored → Except ModelFault Model
  | .record r => r.toModel
  | .other typeName => .error (.notARecord typeName)
  | .unreadable reason => .error (.malformed path reason)

theorem to_model_to_record (m : Model) : m.toRecord.toModel = .ok m := by
  cases m with
  | mk weights complemented lang fingerprint =>
    cases complemented <;> rfl

end Model

end Reckon

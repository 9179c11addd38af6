import Reckon.Clock.Moment
import Reckon.CommandLine.Flags
import Reckon.Datum.Json
import Reckon.Language.Store

/-!
What a program sees and what comes of its run, as values.
-/

set_option autoImplicit false

namespace Reckon.CommandLine

inductive ReadFault where
  | absent
  | isDirectory
  | notDirectory
deriving DecidableEq, Repr

def ReadFault.message : ReadFault → String
  | absent => "[Errno 2] No such file or directory"
  | isDirectory => "[Errno 21] Is a directory"
  | notDirectory => "[Errno 20] Not a directory"

structure Surroundings where
  now : Moment
  /-- The directory of models where none is given. -/
  modelDirectory : String
  models : ModelStore
  readText : String → Except ReadFault String

structure Page where
  content : Datum
  indented : Bool

def Page.text (p : Page) : String :=
  if p.indented then Json.indented 0 p.content else Json.compact p.content

/-- What comes of a run: pages printed, a complaint if something is wrong, models saved under their
paths and an exit code. -/
structure Outcome where
  pages : List Page := []
  complaint : Option String := none
  saved : List (String × Model) := []
  exitCode : Nat := 0

namespace Outcome

def complaining (exitCode : Nat) (text : String) : Outcome :=
  { complaint := some ("❌ " ++ text), exitCode }

def refused (r : Refusal) : Outcome :=
  match r with
  | .misuse => { exitCode := 2 }
  | .help => {}

end Outcome

end Reckon.CommandLine

import Std.Time.DateTime.Timestamp
import Reckon.CommandLine.BuildProgram
import Reckon.CommandLine.ParseProgram
import Reckon.Language.ModelFile

/-!
The programs at the command line: `parse` and `build`, by the first word. This layer reads the clock
and the files that a run needs, and writes what comes of it.
-/

set_option autoImplicit false

namespace Reckon.CommandLine

def epochSeconds : Int :=
  Date.dayNumber ⟨1970, 1, 1⟩ * 86400

def currentMoment : IO Moment := do
  let stamp ← Std.Time.Timestamp.now
  let seconds : Int := stamp.val.second.val
  return Moment.readAt Zone.utc ((epochSeconds + seconds) * LocalTime.ticksPerSecond)

def faultOf : IO.Error → ReadFault
  | .inappropriateType _ _ _ => .isDirectory
  | _ => .absent

def readFile (path : String) : IO (Except ReadFault String) :=
  try
    return .ok (← IO.FS.readFile path)
  catch error =>
    return .error (faultOf error)

def directoryOf (path : String) : String :=
  "/".intercalate (path.splitOn "/").dropLast

def saveModel (path : String) (m : Model) : IO Unit := do
  let directory := directoryOf path
  if !directory.isEmpty then IO.FS.createDirAll directory
  IO.FS.writeFile path (ModelFile.render m)

def finish : Except Failure Outcome → IO UInt32
  | .ok outcome => do
    for (path, m) in outcome.saved do saveModel path m
    for page in outcome.pages do IO.println page.text
    if let some complaint := outcome.complaint then IO.eprintln complaint
    return outcome.exitCode.toUInt32
  | .error failure => do
    IO.eprintln (failure.message.getD "the text cannot be parsed")
    return 1

def surroundingsFor (words : List String) (directory : String) : IO Surroundings := do
  let given := (ParseProgram.usage.read words).toOption.getD {}
  let content ← match ParseProgram.inputPath? given with
    | some path => readFile path
    | none => pure (.error .absent)
  let models ← match ParseProgram.modelPath? given directory with
    | some path => match ← readFile path with
      | .ok text => pure (({} : ModelStore).put path (ModelFile.read text))
      | .error _ => pure {}
    | none => pure {}
  return {
    now := ← currentMoment, modelDirectory := directory, models,
    readText := fun _ => content }

def runProgram (words : List String) : IO UInt32 := do
  let directory := ((← IO.getEnv "RECKON_MODELS_DIR").filter fun d => !d.isEmpty).getD "models"
  match words with
  | "build" :: rest => finish (BuildProgram.run rest (← surroundingsFor [] directory))
  | "parse" :: rest => finish (ParseProgram.run rest (← surroundingsFor rest directory))
  | _ =>
    IO.eprintln "usage: parse [flags] text | build [flags]"
    return 2

end Reckon.CommandLine

def main (words : List String) : IO UInt32 :=
  Reckon.CommandLine.runProgram words

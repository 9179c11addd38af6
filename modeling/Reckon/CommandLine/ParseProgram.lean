import Reckon.CommandLine.Outcome
import Reckon.CommandLine.Settings
import Reckon.English.Language

/-!
The program that parses text: the words of the command line, or the lines of a file. It prints the
mentions of each text, or the coverage of all of them.
-/

set_option autoImplicit false

namespace Reckon.CommandLine.ParseProgram

def usage : Usage :=
  { flags :=
      [ { names := ["--input", "-i"], arity := .one },
        { names := ["--all"], arity := .none },
        { names := ["--analyse"], arity := .none },
        { names := ["--pretty"], arity := .none } ] ++ sharedFlags
    takesText := true }

/-- Whether a failure is one that the user can mend; others end the run as they are. -/
def isMendable : Failure → Bool
  | .unknownLanguage _ | .model _ | .setting _ | .unknownKind _ | .unreadableTime _ => true
  | _ => false

def splitLines : List Char → List Char → List (List Char)
  | line, [] => if line.isEmpty then [] else [line.reverse]
  | line, '\r' :: '\n' :: rest => line.reverse :: splitLines [] rest
  | line, c :: rest =>
    if c = '\n' || c = '\r' then line.reverse :: splitLines [] rest
    else splitLines (c :: line) rest

def textLines (content : String) : List String :=
  ((splitLines [] content.toList).filter fun line => !(Text.trim line).isEmpty).map String.ofList

/-- A path without empty parts and parts that stand for the directory itself. -/
def plainPath (path : String) : String :=
  let parts := (path.splitOn "/").filter fun part => !part.isEmpty && part != "."
  let joined := "/".intercalate parts
  if path.startsWith "/" then "/" ++ joined else if parts.isEmpty then "." else joined

def inputPath? (g : Given) : Option String :=
  (nonEmpty (g.value? "--input")).map plainPath

def directoryFor (g : Given) (fallback : String) : String :=
  (nonEmpty (g.value? "--models-dir")).getD fallback

def modelPath? (g : Given) (fallback : String) : Option String :=
  let settings := Settings.ofGiven g
  if settings.train then none
  else (Catalogue.standard.modelPath (directoryFor g fallback) settings.lang).toOption

def parserFor (g : Given) (config : Config) (s : Surroundings) : Except Failure Parser := do
  if config.train then
    return (← Catalogue.standard.train config.lang unitStrength).1
  else
    return (← Catalogue.standard.build s.models (directoryFor g s.modelDirectory) config.lang).1

def textsFor (g : Given) (s : Surroundings) : Except String (List String) :=
  match inputPath? g with
  | none => .ok [" ".intercalate (g.text.getD [])]
  | some path =>
    match s.readText path with
    | .ok content => .ok (textLines content)
    | .error fault =>
      .error ("Failed to read " ++ path ++ ": " ++ fault.message ++ ": " ++ Text.quoted path)

def mentionsPage (parser : Parser) (config : Config) (context : Context) (mode : Selection)
    (indented : Bool) (text : String) : Except Failure Page := do
  let (mentions, _) ← parser.parse text.toList.toArray context config.kinds mode
  let content : Datum :=
    .record [("text", .text text), ("matches", .list (mentions.map (·.report)))]
  return { content, indented }

def coveragePage (parser : Parser) (config : Config) (context : Context) (indented : Bool)
    (texts : List String) : Except Failure Page := do
  let (coverage, _) ← parser.coverage texts context config.kinds
  return { content := .record (coverage.fields ++ [("config", config.report)]), indented }

def pagesFor (g : Given) (parser : Parser) (config : Config) (context : Context)
    (texts : List String) : Except Failure (List Page) := do
  let indented := g.has "--pretty"
  if g.has "--analyse" then
    return [← coveragePage parser config context indented texts]
  else
    let mode : Selection := if g.has "--all" then .exhaustive else .bestOnly
    texts.mapM (mentionsPage parser config context mode indented)

def prepare (g : Given) (s : Surroundings) : Except Failure (Config × Context × Parser) := do
  let (config, context) ← (Settings.ofGiven g).check s.now
  return (config, context, ← parserFor g config s)

def runGiven (g : Given) (s : Surroundings) : Except Failure Outcome :=
  match prepare g s with
  | .error failure =>
    if isMendable failure then .ok (Outcome.complaining 2 (failure.message.getD ""))
    else .error failure
  | .ok (config, context, parser) =>
    match textsFor g s with
    | .error complaint => .ok (Outcome.complaining 1 complaint)
    | .ok texts => do return { pages := ← pagesFor g parser config context texts }

def run (words : List String) (s : Surroundings) : Except Failure Outcome :=
  match usage.read words with
  | .error refusal => .ok (Outcome.refused refusal)
  | .ok given => runGiven given s

end Reckon.CommandLine.ParseProgram

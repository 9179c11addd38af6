import Reckon.CommandLine.Outcome
import Reckon.CommandLine.Settings
import Reckon.English.Language

/-!
The program that trains the models of some languages and saves them. On demand it prints how much of
its corpus the parser of each language covers.
-/

set_option autoImplicit false

namespace Reckon.CommandLine.BuildProgram

def usage : Usage :=
  { flags :=
      [ { names := ["--lang"], arity := .many },
        { names := ["--models-dir"], arity := .one },
        { names := ["--C"], arity := .one, accepts := fun s => (Text.readFloat? s).isSome },
        { names := ["--report"], arity := .none } ]
    takesText := false }

def languagesFor (g : Given) : List String :=
  match g.get? "--lang" with
  | none | some [] => Catalogue.standard.names
  | some names => names

def coveragePage (parser : Parser) (name : String) : Except Failure Page := do
  let language ← Catalogue.standard.find name
  let texts := language.examples.flatMap (·.texts)
  let (coverage, _) ← parser.coverage texts Context.training Kind.all
  return { content := .record [(Text.upper name, .record coverage.fields)], indented := true }

def buildAll (g : Given) (directory : String) (strength : Binary64) :
    List String → Outcome → Except Failure Outcome
  | [], done => .ok done
  | name :: rest, done => do
    let (parser, _) ← Catalogue.standard.train name strength
    let path ← Catalogue.standard.modelPath directory name
    let pages ← if g.has "--report" then pure [← coveragePage parser name] else pure []
    buildAll g directory strength rest
      { done with pages := done.pages ++ pages, saved := done.saved ++ [(path, parser.model)] }

def runGiven (g : Given) (s : Surroundings) : Except Failure Outcome :=
  let directory := (nonEmpty (g.value? "--models-dir")).getD s.modelDirectory
  let strength := ((g.value? "--C").bind Text.readFloat?).getD unitStrength
  buildAll g directory strength (languagesFor g) {}

def run (words : List String) (s : Surroundings) : Except Failure Outcome :=
  match usage.read words with
  | .error refusal => .ok (Outcome.refused refusal)
  | .ok given => runGiven given s

end Reckon.CommandLine.BuildProgram

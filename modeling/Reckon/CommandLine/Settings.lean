import Reckon.CommandLine.Flags
import Reckon.Report
import Reckon.Text.NumberText

/-!
Settings that every program shares which parses text: the language and its model, the kinds to
report and the context.
-/

set_option autoImplicit false

namespace Reckon.CommandLine

/-- Settings as given, before any of them is checked. -/
structure Settings where
  lang : String := "en"
  modelDirectory : Option String := none
  train : Bool := false
  kindNames : List String := []
  zoneName : String := "UTC"
  reference : Option String := none
  grainName : String := "second"
  weekStart : Int := 0

structure Config where
  lang : String := "en"
  modelDirectory : Option String := none
  train : Bool := false
  kinds : List Kind := Kind.all
  context : Option Context := none

def sharedFlags : List Flag :=
  [ { names := ["--lang"], arity := .one },
    { names := ["--models-dir"], arity := .one },
    { names := ["--train"], arity := .none },
    { names := ["--kinds"], arity := .many },
    { names := ["--timezone"], arity := .one },
    { names := ["--reference-time"], arity := .one },
    { names := ["--default-grain"], arity := .one
      accepts := fun s => Grain.all.any (·.label == s) },
    { names := ["--week-start"], arity := .one
      accepts := fun s => (Text.readInteger? s).isSome } ]

def nonEmpty (s : Option String) : Option String :=
  s.filter fun s => !s.isEmpty

namespace Settings

def ofGiven (g : Given) : Settings :=
  { lang := (g.value? "--lang").getD "en"
    modelDirectory := g.value? "--models-dir"
    train := g.has "--train"
    kindNames := (g.get? "--kinds").getD []
    zoneName := (nonEmpty (g.value? "--timezone")).getD "UTC"
    reference := nonEmpty (g.value? "--reference-time")
    grainName := (g.value? "--default-grain").getD "second"
    weekStart := ((g.value? "--week-start").bind Text.readInteger?).getD 0 }

def kinds (s : Settings) : Except Failure (List Kind) :=
  if s.kindNames.isEmpty then .ok Kind.all else s.kindNames.mapM Kind.ofName

/-- The context; without a reference of its own it refers to `now`. -/
def context (s : Settings) (now : Moment) : Except Failure Context := do
  let grain ← Grain.ofName s.grainName
  let reference := match s.reference with
    | some text => .text text
    | none => .moment now
  Context.make reference s.zoneName grain.size s.weekStart

def check (s : Settings) (now : Moment) : Except Failure (Config × Context) := do
  let kinds ← s.kinds
  let context ← s.context now
  let config : Config :=
    { lang := s.lang, modelDirectory := s.modelDirectory, train := s.train, kinds
      context := some context }
  return (config, context)

end Settings

def Config.report (c : Config) : Datum :=
  .record
    [("lang", .text c.lang), ("models_dir", .ofOption .text c.modelDirectory),
      ("train", .truth c.train), ("kinds", .texts (c.kinds.map (·.label))),
      ("context", .record ((c.context.map fun context => context.report.fields).getD []))]

end Reckon.CommandLine

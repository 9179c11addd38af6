import Reckon.Language.Store
import Reckon.Text.Blank
import Reckon.Training.Trainer

/-!
Languages: the rules, the corpus, the kinds and the model file of each, and the parsers made of
them. A language is looked up by its name in any case and with any white space around it.
-/

set_option autoImplicit false

namespace Reckon

structure Language where
  name : String
  rules : RuleSet Value
  examples : List Example
  kinds : List Kind
  modelFile : String

structure Catalogue where
  entries : List (String × Language) := []

namespace Catalogue

/-- What makes two names the same. -/
def key (name : String) : String :=
  Text.upper (Text.trimString name)

/-- Adds a language, in place of one with the same key. -/
def register (c : Catalogue) (language : Language) : Catalogue :=
  let k := key language.name
  ⟨(k, language) :: c.entries.filter (·.1 != k)⟩

def find (c : Catalogue) (name : String) : Except Failure Language :=
  match c.entries.lookup (key name) with
  | some language => .ok language
  | none => .error (.unknownLanguage name)

def names (c : Catalogue) : List String :=
  (c.entries.map (·.1)).mergeSort fun a b => a ≤ b

theorem find_register (c : Catalogue) (language : Language) (name : String)
    (same : key name = key language.name) : (c.register language).find name = .ok language := by
  simp [find, register, same]

def modelPath (c : Catalogue) (directory name : String) : Except Failure String := do
  return joinPath directory (← c.find name).modelFile

def storedModel (c : Catalogue) (store : ModelStore) (directory name : String) :
    Except Failure Model := do
  match store.load (← c.modelPath directory name) (key name) with
  | .ok m => return m
  | .error fault => throw (.model fault)

/-- A parser with the stored model of a language, and a notice if the model was trained on other
rules. -/
def build (c : Catalogue) (store : ModelStore) (directory name : String) :
    Except Failure (Parser × List Notice) := do
  let rules := (← c.find name).rules
  let model ← c.storedModel store directory name
  let notices := if model.isForOtherRules rules.fingerprint then [.otherRuleSet name] else []
  return (⟨rules, model⟩, notices)

def train (c : Catalogue) (name : String) (strength : Binary64) :
    Except Failure (Parser × List Notice) := do
  let language ← c.find name
  let trained ← language.rules.train language.examples strength Context.training language.name
  return (⟨language.rules, trained.model⟩, trained.notices)

end Catalogue

end Reckon

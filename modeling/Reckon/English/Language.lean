import Reckon.English.Examples
import Reckon.English.Rules
import Reckon.Language.Catalogue

/-!
English as a language of the catalogue.
-/

set_option autoImplicit false

namespace Reckon

namespace English

def language : Language :=
  { name := "EN"
    rules := ruleSet
    examples := Examples.all
    kinds := Kind.all
    modelFile := "en.pkl" }

end English

def Catalogue.standard : Catalogue :=
  Catalogue.register {} English.language

end Reckon

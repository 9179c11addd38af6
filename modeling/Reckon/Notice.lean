/-!
Notices: what a call reports beside its result.
-/

set_option autoImplicit false

namespace Reckon

inductive Notice where
  /-- A candidate was dropped because it could not be resolved. -/
  | dropped (kind text reason : String)
  | nodeCap (cap : Int)
  | noFixpoint (rounds : Int)
  /-- No parse of a training text has the expected meaning. -/
  | noParse (text : String)
  /-- The model was trained on other rules. -/
  | otherRuleSet (lang : String)
deriving DecidableEq, Repr

end Reckon

import Reckon.Digest.Sha1
import Reckon.Forest.Rule
import Reckon.Text.Quoted

/-!
The fingerprint of a rule set, which tells whether a model was trained on the same rules: the first
half of the digest of the rules' names in order, each ended by a zero byte.
-/

set_option autoImplicit false

namespace Reckon

namespace Digest

def hexText (bytes : List UInt8) : String :=
  String.ofList (bytes.flatMap fun byte => Text.hexPadded 2 byte.toNat)

def ofNames (names : List String) : String :=
  let message := names.flatMap fun name => name.toUTF8.toList ++ [0]
  hexText ((Sha1.digest message).take 8)

end Digest

def RuleSet.fingerprint {α : Type} (rs : RuleSet α) : String :=
  Digest.ofNames rs.ruleNames

end Reckon

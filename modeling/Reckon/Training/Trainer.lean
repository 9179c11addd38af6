import Reckon.Digest.Fingerprint
import Reckon.Training.Logistic
import Reckon.Training.Sample

/-!
Training: the weights that best tell the positive samples of a corpus from the others. Both classes
get the same total weight, however many samples each has. The fitted parameters are rounded to
multiples of 2 ^ -40, so that a trained model scores exactly as any other.
-/

set_option autoImplicit false

namespace Reckon

namespace Training

def scale : Nat := 40

def vocabulary (samples : List Sample) : List String :=
  ((samples.flatMap (·.features)).mergeSort fun a b => a ≤ b).eraseReps

/-- The weight of one sample of a class: half the number of samples, shared by the class. -/
def classWeight (total count : Nat) : Float :=
  Float.ofNat total / (2 * Float.ofNat count)

def cellOf (names : List String) (right wrong : Float) (samples : List Sample)
    (features : List String) : Logistic.Cell :=
  let same := samples.filter fun s => s.features == features
  let positive := same.countP (·.positive)
  { features := features.map names.idxOf
    right := right * Float.ofNat positive
    wrong := wrong * Float.ofNat (same.length - positive) }

def distinct (samples : List Sample) : List (List String) :=
  (samples.map (·.features)).eraseDups

def problemOf (samples : List Sample) (strength : Float) : Logistic.Problem :=
  let names := vocabulary samples
  let total := samples.length
  let positive := samples.countP (·.positive)
  let right := classWeight total positive
  let wrong := classWeight total (total - positive)
  { size := names.length
    penalty := 1 / strength
    cells := (distinct samples).map (cellOf names right wrong samples) }

def unitsOf (x : Float) : Int :=
  match Binary64.ofBits x.toBits.toNat with
  | .finite negative mantissa exponent =>
    Binary64.signed negative (Binary64.scaledQuotient mantissa 1 (-(exponent + scale)))
  | _ => 0

def weightsOf (names : List String) (params : Logistic.Params) : Weights :=
  { intercept := unitsOf (params.getD 0 0)
    table := names.zipIdx.map fun (name, place) => (name, unitsOf (params.getD (place + 1) 0))
    scale := scale }

/-- Whether a number can be the strength of the data against the penalty: positive, or infinite. -/
def isStrength (x : Binary64) : Bool :=
  !(x.le Binary64.zero) && x != .nan

def fit (samples : List Sample) (strength : Binary64) : Except Failure Weights :=
  if samples.all (·.positive) || samples.all (!·.positive) then .error (.model .singleClass)
  else if !isStrength strength then .error .outOfRange
  else
    let problem := problemOf samples (Float.ofBits (UInt64.ofNat strength.toBits))
    .ok (weightsOf (vocabulary samples) problem.fit)

end Training

structure Trained where
  model : Model
  samples : List Sample
  notices : List Notice

def unitStrength : Binary64 := Binary64.ofDecimal 1 0

def RuleSet.train (rules : RuleSet Value) (examples : List Example) (strength : Binary64)
    (context : Context) (lang : String) : Except Failure Trained := do
  let (samples, notices) ← Sample.ofExamples rules context examples
  let weights ← Training.fit samples strength
  let model : Model := { weights, lang, fingerprint := some rules.fingerprint }
  return ⟨model, samples, notices⟩

end Reckon

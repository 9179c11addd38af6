/-!
Scores: logarithms of probabilities, in whole units of 2 ^ -20, with a value below all others for
the probability zero. They add and compare exactly.
-/

set_option autoImplicit false

namespace Reckon

inductive Score where
  | negInfinity
  | finite (units : Int)
deriving DecidableEq, Repr, Inhabited

namespace Score

def zero : Score := finite 0

def add : Score → Score → Score
  | finite a, finite b => finite (a + b)
  | _, _ => negInfinity

def le : Score → Score → Bool
  | negInfinity, _ => true
  | finite _, negInfinity => false
  | finite a, finite b => a ≤ b

def total (scores : List Score) : Score :=
  scores.foldr add zero

theorem zero_add (s : Score) : add zero s = s := by
  cases s <;> simp [add, zero]

theorem add_zero (s : Score) : add s zero = s := by
  cases s <;> simp [add, zero]

theorem add_comm (a b : Score) : add a b = add b a := by
  cases a <;> cases b <;> simp [add, Int.add_comm]

theorem add_assoc (a b c : Score) : add (add a b) c = add a (add b c) := by
  cases a <;> cases b <;> cases c <;> simp [add, Int.add_assoc]

theorem le_refl (s : Score) : le s s = true := by
  cases s <;> simp [le]

theorem le_total (a b : Score) : (le a b || le b a) = true := by
  cases a <;> cases b <;> simp [le]
  omega

end Score

end Reckon

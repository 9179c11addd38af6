/-!
Fitting of a logistic regression. The parameters are an intercept, at place 0, and a weight for each
feature, at the places after it. `fit` minimises the sum of the weighted log-losses of the cells
plus a penalty on the squares of the weights, by Newton's method; each step solves its linear system
by conjugate gradients. The minimum is unique, so only its approximation depends on the method.
-/

set_option autoImplicit false

namespace Reckon.Logistic

/-- Rows with the same features, by the total weight of the right and of the wrong ones. -/
structure Cell where
  features : List Nat
  right : Float
  wrong : Float

structure Problem where
  size : Nat
  penalty : Float
  cells : List Cell

abbrev Params := Array Float

def Cell.places (c : Cell) : List Nat :=
  0 :: c.features.map (· + 1)

def Cell.activation (c : Cell) (p : Params) : Float :=
  c.places.foldl (fun sum place => sum + p.getD place 0) 0

def sigmoid (z : Float) : Float :=
  1 / (1 + Float.exp (-z))

def softplus (z : Float) : Float :=
  (if 0 < z then z else 0) + Float.log (1 + Float.exp (-z.abs))

def dot (a b : Params) : Float :=
  (a.zipWith (· * ·) b).foldl (· + ·) 0

def addScaled (a : Params) (factor : Float) (b : Params) : Params :=
  a.zipWith (fun x y => x + factor * y) b

namespace Problem

def dimension (q : Problem) : Nat :=
  q.size + 1

def origin (q : Problem) : Params :=
  Array.replicate q.dimension 0

/-- The parameters under the penalty: the intercept is free of it. -/
def penalised (q : Problem) (p : Params) : Params :=
  (p.map (· * q.penalty)).modify 0 fun _ => 0

def objective (q : Problem) (p : Params) : Float :=
  q.cells.foldl
    (fun sum c =>
      let z := c.activation p
      sum + c.right * softplus (-z) + c.wrong * softplus z)
    (dot (q.penalised p) p / 2)

def scatter (base : Params) (cells : List (Cell × Float)) : Params :=
  cells.foldl (fun p (c, x) => c.places.foldl (fun p place => p.modify place (· + x)) p) base

def gradient (q : Problem) (p : Params) : Params :=
  scatter (q.penalised p) <| q.cells.map fun c =>
    (c, (c.right + c.wrong) * sigmoid (c.activation p) - c.right)

def curvatures (q : Problem) (p : Params) : List (Cell × Float) :=
  q.cells.map fun c =>
    let s := sigmoid (c.activation p)
    (c, (c.right + c.wrong) * s * (1 - s))

def bend (q : Problem) (curved : List (Cell × Float)) (v : Params) : Params :=
  scatter (q.penalised v) (curved.map fun (c, k) => (c, k * c.activation v))

/-- Conjugate gradients: improves `x` along directions that the matrix makes independent, until the
residual is negligible. -/
def solveFrom (apply : Params → Params) : Nat → Params → Params → Params → Params
  | 0, x, _, _ => x
  | fuel + 1, x, residual, direction =>
    let size := dot residual residual
    if size < 1e-26 then x
    else
      let image := apply direction
      let rate := size / dot direction image
      let next := addScaled residual (-rate) image
      let turn := dot next next / size
      solveFrom apply fuel (addScaled x rate direction) next (addScaled next turn direction)

def direction (q : Problem) (p : Params) : Params :=
  let target := (q.gradient p).map (-·)
  let curved := q.curvatures p
  solveFrom (q.bend curved) (3 * q.dimension) q.origin target target

def descend (q : Problem) (p step : Params) : Nat → Float → Option Params
  | 0, _ => none
  | fuel + 1, rate =>
    let next := addScaled p rate step
    if q.objective next < q.objective p then some next else q.descend p step fuel (rate / 2)

def improve (q : Problem) : Nat → Params → Params
  | 0, p => p
  | fuel + 1, p =>
    match q.descend p (q.direction p) 40 1 with
    | some next => q.improve fuel next
    | none => p

def fit (q : Problem) : Params :=
  q.improve 60 q.origin

end Problem

end Reckon.Logistic

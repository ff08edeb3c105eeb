import Regrid.Scalar

/-!
# Least-norm solutions of symmetric systems

`leastNorm a b` is the vector of least norm among those for which `a x` is nearest to `b`. The
symmetric matrix is turned into a diagonal one by rotations in the planes of two axes
(`principalAxes`); along each principal axis the system is one equation, and axes along which the
matrix is negligible are left out.

This is the step of `KKTSolver.solve` that solves its system.
-/

namespace Regrid

/-- A symmetric matrix seen along orthonormal axes, with these axes. -/
structure AxisForm where
  form : Array (Array Float)
  axes : Array (Array Float)

namespace AxisForm

/-- The element in a row and column. -/
def element (a : Array (Array Float)) (i j : Nat) : Float := (a.getD i #[]).getD j 0.0

/-- A matrix along the axes of its coordinates. -/
def ofRows (a : Array (Array Float)) : AxisForm :=
  ⟨a, Array.ofFn fun i : Fin a.size => Array.ofFn fun j : Fin a.size =>
    if i = j then 1.0 else 0.0⟩

/-- Two elements turned by an angle, of which the cosine and the sine are given. -/
def turn (c s x y : Float) : Float × Float := (c * x - s * y, s * x + c * y)

/-- Two rows turned into each other. -/
def turnRows (p q : Nat) (c s : Float) (a : Array (Array Float)) : Array (Array Float) :=
  let pairs := Array.zipWith (turn c s) (a.getD p #[]) (a.getD q #[])
  (a.setIfInBounds p (pairs.map Prod.fst)).setIfInBounds q (pairs.map Prod.snd)

/-- Two columns turned into each other. -/
def turnColumns (p q : Nat) (c s : Float) (a : Array (Array Float)) : Array (Array Float) :=
  a.map fun row =>
    let (x, y) := turn c s (row.getD p 0.0) (row.getD q 0.0)
    (row.setIfInBounds p x).setIfInBounds q y

/-- The cosine and the sine of the smaller angle that makes the element between two axes zero,
where it is `b` and the elements on the diagonal are `x` and `y`. -/
def angle (x y b : Float) : Float × Float :=
  let h := (y - x) / (2.0 * b)
  let t := (if h < 0.0 then -1.0 else 1.0) / (h.abs + (h * h + 1.0).sqrt)
  let c := 1.0 / (t * t + 1.0).sqrt
  (c, t * c)

/-- Two axes turned so that the element between them is zero. -/
def rotate (f : AxisForm) (p q : Nat) : AxisForm :=
  let b := element f.form p q
  if b == 0.0 then f
  else
    let (c, s) := angle (element f.form p p) (element f.form q q) b
    ⟨turnColumns p q c s (turnRows p q c s f.form), turnRows p q c s f.axes⟩

/-- Every pair of axes turned once. -/
def sweep (f : AxisForm) : AxisForm :=
  let n := f.form.size
  (List.range n).foldl (fun f q => (List.range q).foldl (fun f p => f.rotate p q) f) f

/-- The sweeps after which the elements between the axes are negligible: each squares their size, as
soon as it is small. -/
def sweeps : Nat := 24

/-- The principal axes of a symmetric matrix, with the matrix along them. -/
def principalAxes (a : Array (Array Float)) : AxisForm := sweeps.repeat sweep (ofRows a)

/-- The part of the largest element of the diagonal below which one counts as zero. -/
def negligible : Float := 1e-10

end AxisForm

/-- The vector of least norm among those for which the product with the symmetric matrix is
nearest to `b`. -/
def leastNorm (a : Array (Array Float)) (b : Array Float) : Array Float :=
  let f := AxisForm.principalAxes a
  let along := (List.range a.size).map fun i => (AxisForm.element f.form i i, f.axes.getD i #[])
  let largest := along.foldl (fun m (x, _) => if m < x.abs then x.abs else m) 0.0
  along.foldl (fun acc (x, axis) =>
    if x.abs ≤ AxisForm.negligible * largest then acc
    else
      let t := Scalar.dot axis b / x
      Array.zipWith (fun y v => y + t * v) acc axis) (b.map fun _ => 0.0)

end Regrid

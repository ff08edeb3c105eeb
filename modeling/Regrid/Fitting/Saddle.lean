import Regrid.Fitting.LeastNorm
import Regrid.Fitting.Problem

/-!
# Solving by the saddle-point system

At a solution `x + d` of a quadratic program with the multipliers `l`, the gradient vanishes and
the constraints hold: `H d + Aᵀ l = -(g + H x)` and `A d = b - A x`. `saddleSolver` takes the
least-norm solution of this symmetric system, so a program with many solutions gets the one
nearest to its start, and refuses the result if it misses the constraints.

Model of `KKTSolver`.
-/

namespace Regrid

/-- The number that stands for a bound that is none (`INFINITY`). -/
def unbounded : Float := 1e20

/-- The length of a vector. -/
def euclideanNorm (xs : Array Float) : Float := (Scalar.dot xs xs).sqrt

namespace QuadraticProgram

/-- The rows of the symmetric matrix `[H, Aᵀ; A, 0]`. -/
def saddleRows (q : QuadraticProgram Float) : Array (Array Float) :=
  let blank := Array.replicate q.constraints.rows 0.0
  let above := q.hessian.denseRows.zipWith (· ++ ·) q.constraints.transpose.denseRows
  (above ++ q.constraints.denseRows.map (· ++ blank)).toArray

/-- By how much the system is not yet solved at the start. -/
def saddleTarget (q : QuadraticProgram Float) : Except Error (Array Float) := do
  let curved := (← q.hessian.apply q.start false).values
  let gradient := Array.zipWith (· + ·) q.linear curved
  return gradient.map (-·) ++ (← q.residual q.start).map (-·)

/-- The solution of the saddle-point system that is nearest to the start (`KKTSolver.solve`). Its
constraints must be met up to a tolerance relative to the length of the targets. -/
def saddlePoint (tolerance : Float) (q : QuadraticProgram Float) : Except Error (Tensor Float) := do
  unless q.start.shape = [q.unknowns] do throw .invalidValue
  let step := leastNorm q.saddleRows (← q.saddleTarget)
  let x := Tensor.ofArray (Array.zipWith (· + ·) q.start.values step)
  unless x.values.all Float.isFinite do throw (.optimizationFailed .systemNotFinite)
  let scale := max 1.0 (Float.ofNat q.constraints.rows).sqrt
  let missed := euclideanNorm (← q.residual x)
  if tolerance * (1.0 + euclideanNorm q.targets.values) * scale < missed then
    throw (.optimizationFailed .constraintsMissed)
  return x

end QuadraticProgram

/-- The tolerance of constraints where the caller names none. -/
def constraintTolerance : Float := 1e-8

/-- The solver that solves the saddle-point system (`KKTSolver`). There are no bounds, so nothing
stands for one. -/
def saddleSolver (tolerance : Float) : Solver Float := fun q _ => q.saddlePoint tolerance

end Regrid

import Regrid.Sparse.Merge

/-!
# Quadratic programs with equality constraints

To minimise `½ xᵀ H x + gᵀ x + f` subject to `A x = b`. Of the symmetric `H` only the lower
triangle is held; `hessian` completes it. `objective` and `residual` evaluate a program at a
vector.

Model of `ProjectionProblem` as a program, without what its numbers stand for.
-/

namespace Regrid

/-- A quadratic program with equality constraints (`ProjectionProblem`). -/
structure QuadraticProgram (α : Type) where
  /-- The lower triangle of `H`. -/
  lower : SparseMatrix α
  /-- The vector `g`. -/
  linear : Array α
  /-- The number `f`. -/
  constant : α
  /-- The matrix `A`. -/
  constraints : SparseMatrix α
  /-- The vector `b`, with the number of terms summed up in it. -/
  targets : Totals α
  /-- Where the search for a solution starts. -/
  start : Tensor α

namespace QuadraticProgram

variable {α : Type} [Scalar α]

/-- The number of variables. -/
def unknowns (q : QuadraticProgram α) : Nat := q.lower.rows

/-- The symmetric matrix of which the lower triangle is held: every entry below the diagonal stands
for its mirror image as well (`ProjectionProblem.hessian`). -/
def hessian (q : QuadraticProgram α) : SparseMatrix α :=
  let mirrored := q.lower.transpose.entries.filter fun e => e.row < e.col
  { q.lower with entries := q.lower.entries ++ mirrored }

/-- The value to be minimised (`ProjectionProblem.objective`). -/
def objective (q : QuadraticProgram α) (x : Tensor α) : Except Error α :=
  if x.shape = [q.unknowns] then do
    let curved := (← q.hessian.apply x false).values
    let halves := x.values.map fun v => Scalar.ofNat 1 / Scalar.ofNat 2 * v
    return Scalar.dot halves curved + Scalar.dot q.linear x.values + q.constant
  else if x.shape = [q.unknowns, q.unknowns] then .error .badType
  else .error .invalidValue

/-- By how much each constraint is missed (`ProjectionProblem.constraint_residual`). -/
def residual (q : QuadraticProgram α) (x : Tensor α) : Except Error (Array α) := do
  return Array.zipWith (· - ·) (← q.constraints.apply x false).values q.targets.values

end QuadraticProgram

end Regrid

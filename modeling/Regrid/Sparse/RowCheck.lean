import Regrid.Sparse.Basic
import Regrid.Decimal.Rounded

/-!
# Checking row sums

An operator that conserves has known row sums. `checkRowSums` lists the rows whose sum is further
than a tolerance from the expected value. It reports, it does not repair; a sum that is no number is
far from nothing and is not listed.

Model of `check_row_sums`.
-/

namespace Regrid.SparseMatrix

variable {α : Type} [Scalar α]

/-- The tolerance where the caller names none (`DEFAULT_TOLERANCE`). -/
def defaultTolerance : Float := 1e-9

/-- The rows, among those of the mask, whose sum differs from the expected value by more than the
tolerance, with their sums (`check_row_sums`). -/
def checkRowSums (m : SparseMatrix α) (expected : Tensor α) (tolerance : α)
    (mask : Option (Tensor Bool)) : Except Error (List (Nat × α)) := do
  let wanted ← expected.spread m.rows
  let chosen ← match mask with
    | none => pure (Array.replicate m.rows true)
    | some t =>
      if t.shape = [m.rows] then pure t.values
      else throw (.dimensionMismatch "Row mask does not match matrix" (.shape [m.rows])
        (.shape t.shape))
  let sums := m.rowSums.values
  return (List.range m.rows).filterMap fun r =>
    let s := sums.getD r 0
    if tolerance < Scalar.abs (s - wanted.getD r 0) && chosen.getD r false then some (r, s)
    else none

/-- The warning about rows whose sums are not as expected: none if there are no such rows, and at
most ten of them are shown. -/
def rowSumWarning? (name : String) (bad : List (Nat × Float)) : Option String :=
  if bad.isEmpty then none
  else
    let shown := ", ".intercalate
      ((bad.take 10).map fun (r, s) => toString r ++ ": " ++ Decimal.general s)
    some ("rowsum != expected in " ++ name ++ " for " ++ toString bad.length ++ " rows ("
      ++ shown ++ ")")

end Regrid.SparseMatrix

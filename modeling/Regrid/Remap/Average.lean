import Regrid.Finite
import Regrid.Remap.Operator

/-!
# Weighted averages over target cells

The value of a target cell is the average of the source cells it overlaps, weighted by the overlap
and by a weight of the source cell. A source cell without weight counts for nothing, whatever its
value, and a target cell that meets no weight is missing.

Model of `Hntr.regrid1` and of `Hntr.regrid`.
-/

namespace Regrid.Remap

variable {α : Type} [Scalar α]

/-- The value of a missing target cell where the caller names none (`DATMIS`). -/
def missingValue : Float := -1e30

/-- The weight and the weighted sum of every target cell. -/
def accumulate (r : Remap α) (weights values : Array α) : Array α × Array α :=
  let terms := (r.overlaps none).map fun o =>
    let w := o.amount * weights.getD o.source 0
    (o.target, w, if w != 0 then w * values.getD o.source 0 else 0)
  (SparseMatrix.bucketSums r.target.size (terms.map fun (b, w, _) => (b, w)),
    SparseMatrix.bucketSums r.target.size (terms.map fun (b, _, v) => (b, v)))

/-- The quotient of a sum and its weight, or the missing value where there is no weight. -/
def quotientOr (missing weight value : α) : α :=
  if weight != 0 then value / weight else missing

/-- The sum of a row of a field with rows of `n` cells. -/
def rowTotal (n : Nat) (xs : Array α) (j : Nat) : α :=
  Scalar.sum (xs.extract (j * n) ((j + 1) * n)).toList

/-- The averages; with `polarMean` every cell of the first and of the last row gets the average of
its row. -/
def averages (r : Remap α) (weights values : Array α) (missing : α) (polarMean : Bool) : Array α :=
  let (w, v) := r.accumulate weights values
  let n := r.target.columns
  let cells := (w.zip v).map fun (w, v) => quotientOr missing w v
  if polarMean then
    let rowMean := fun j => quotientOr missing (rowTotal n w j) (rowTotal n v j)
    let south := rowMean 0
    let north := rowMean (r.target.rows - 1)
    (cells.toList.zipIdx.map fun (x, b) =>
      if b / n = 0 then south else if b / n = r.target.rows - 1 then north else x).toArray
  else cells

/-- The averages of a field (`Hntr.regrid1`). The weights are finite, and so are the values of cells
with a weight; a place for the result of another size is refused. -/
def average (r : Remap α) (weights values : Array α) (room : Option Nat) (missing : α)
    (polarMean : Bool) : Except Error (Array α) := do
  checkSize weights r.source.size "WTA"
  checkSize values r.source.size "A"
  if let some n := room then
    unless n = r.target.size do
      throw (.dimensionMismatch "B has wrong size" (.int r.target.size) (.int n))
  checkAllFinite "WTA" weights
  let weighted := ((weights.toList.zipIdx).filterMap fun (w, i) =>
    if w != 0 then some i else none).toArray
  checkFinite "A" (weighted.map fun i => values.getD i 0) fun k =>
    (weighted[k]?).map fun i : Nat => .int i
  return r.averages weights values missing polarMean

/-- The averages of a field in its shape of rows and columns (`Hntr.regrid`). -/
def averageField (r : Remap α) (weights values : Tensor α) (missing : α) (polarMean : Bool) :
    Except Error (Tensor α) := do
  let shape := [r.source.rows, r.source.columns]
  for (name, t) in [("WTA", weights), ("A", values)] do
    unless t.shape = shape do
      throw (.dimensionMismatch (name ++ " does not match source grid") (.shape shape)
        (.shape t.shape))
  return ⟨[r.target.rows, r.target.columns],
    ← r.average weights.values values.values none missing polarMean⟩

end Regrid.Remap

import Regrid.Dataset.Basic
import Regrid.Sparse.Basic

/-!
# Stored matrices

A matrix is stored as three vectors, `row`, `col` and `S`, with one element per entry, and its
shape as the attributes `n_dst` and `n_src`. Stored rows and columns are counted from one.

Model of `SparseMatrixCOO.to_dataset` and `SparseMatrixCOO.from_dataset`.
-/

namespace Regrid.SparseMatrix

/-- The dimension of the stored vectors. -/
def entryDim : String := "n_s"

/-- The matrix as a dataset (`SparseMatrixCOO.to_dataset`). -/
def toDataset (m : SparseMatrix Float) : Dataset where
  attributes := [("n_dst", .int m.rows), ("n_src", .int m.cols)]
  data := [
    ("row", .integers entryDim (m.entries.map fun e => (e.row : Int) + 1)),
    ("col", .integers entryDim (m.entries.map fun e => (e.col : Int) + 1)),
    ("S", .reals [entryDim] [m.size] (m.entries.map Entry.value).toArray)]

/-- A stored index, counted from zero. A real one is truncated; if that gives no integer of 64
bits, the least of these stands for it, which lies in no matrix. -/
def storedIndex : Number → Except Error Int
  | .whole n => (Number.whole (n - 1)).toIdentifier
  | .real x => .ok ((Number.real (x - 1.0)).identifier.toOption.getD Number.leastInt64)

/-- A stored vector. -/
def storedVector (ds : Dataset) (name : String) : Except Error (List Number) :=
  match ds.get? name with
  | some v => .ok v.values.values.toList
  | none => .error .missingKey

/-- The matrix that a dataset holds (`SparseMatrixCOO.from_dataset`). -/
def ofDataset (ds : Dataset) : Except Error (SparseMatrix Float) := do
  let rows ← (← ds.attributes.get "n_dst").toInt
  let cols ← (← ds.attributes.get "n_src").toInt
  let row ← storedVector ds "row"
  let col ← storedVector ds "col"
  let value ← storedVector ds "S"
  let m ← ofShape [.whole rows, .whole cols]
  m.addEntries (← row.mapM storedIndex) (← col.mapM storedIndex) (value.map Number.toFloat)

/-- The text of a matrix. -/
def text (m : SparseMatrix Float) : String :=
  "SparseMatrixCOO(shape=" ++ m.shape.quoted ++ ", nnz=" ++ toString m.size ++ ")"

end Regrid.SparseMatrix

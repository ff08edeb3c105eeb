import Regrid.Sparse.Basic

/-!
# Merging entries of one coordinate

`sumDuplicates` replaces the entries at a coordinate by their sum and puts the coordinates in order,
by row and then by column. Sums that cancel to zero stay. `multiply` merges the products of two
matrices in the same way, and drops the sums that are zero.

Model of `SparseMatrixCOO.sum_duplicates` and of `multiply`.
-/

namespace Regrid

variable {α : Type} [Scalar α]

/-- Sum the values of neighbours with the same key, from the left; `key` and `total` are the run
that is open. -/
def sumRunsFrom {κ : Type} [DecidableEq κ] (key : κ) (total : α) : List (κ × α) → List (κ × α)
  | [] => [(key, total)]
  | (k, v) :: rest =>
    if k = key then sumRunsFrom key (total + v) rest
    else (key, total) :: sumRunsFrom k v rest

/-- Sum the values of neighbours with the same key. -/
def sumRuns {κ : Type} [DecidableEq κ] : List (κ × α) → List (κ × α)
  | [] => []
  | (k, v) :: rest => sumRunsFrom k v rest

namespace SparseMatrix

/-- Coordinates in reading order: by row, then by column. -/
def coordinateLE (a b : (Nat × Nat) × α) : Bool :=
  a.1.1 < b.1.1 || (a.1.1 == b.1.1 && a.1.2 ≤ b.1.2)

/-- One entry per coordinate in reading order. -/
def mergedEntries (entries : List (Entry α)) : List (Entry α) :=
  let keyed := entries.map fun e => ((e.row, e.col), e.value)
  (sumRuns (keyed.mergeSort coordinateLE)).map fun ((r, c), v) => ⟨r, c, v⟩

/-- The same matrix with one entry per coordinate, in reading order
(`SparseMatrixCOO.sum_duplicates`). -/
def sumDuplicates (m : SparseMatrix α) : SparseMatrix α :=
  { m with entries := mergedEntries m.entries }

/-- The merged entries of every row, as pairs of column and value. -/
def rowLists (m : SparseMatrix α) : Array (List (Nat × α)) :=
  (mergedEntries m.entries).foldr (fun e acc => acc.modify e.row ((e.col, e.value) :: ·))
    (Array.replicate m.rows [])

/-- The products that contribute to one row of a matrix product, in order. -/
def rowProducts (right : Array (List (Nat × α))) (row : List (Nat × α)) : List (Nat × α) :=
  row.flatMap fun (j, v) => (right.getD j []).map fun (k, w) => (k, v * w)

/-- The product of two matrices, with one entry per coordinate in reading order and none that is
zero (`multiply`). -/
def multiply (a b : SparseMatrix α) : Except Error (SparseMatrix α) :=
  if a.cols = b.rows then
    let right := b.rowLists
    let entries := a.rowLists.toList.zipIdx.flatMap fun (row, i) =>
      let merged := sumRuns ((rowProducts right row).mergeSort fun x y => x.1 ≤ y.1)
      (merged.filter fun (_, v) => v != 0).map fun (k, v) => ⟨i, k, v⟩
    .ok ⟨a.rows, b.cols, entries⟩
  else
    .error (.dimensionMismatch "Inner dimensions of matrix product differ" (.int a.cols)
      (.int b.rows))

end SparseMatrix

end Regrid

import Regrid.Remap.Operator

/-!
# Building an operator in blocks of rows

The target rows are divided into blocks of nearly equal size, the operator of each block is built
on its own, and the blocks are put together in order. The result is the operator itself, entry by
entry.

Model of `_row_chunks` and of `build_matrix_dask`.
-/

namespace Regrid

/-- The bounds of `count` blocks of `rows` rows: the rows divided equally and rounded, of two
equally near integers to the even one. -/
def blockBounds (α : Type) [Scalar α] (rows count : Nat) : List Nat :=
  let step : α := Scalar.ofNat rows / Scalar.ofNat count
  (List.range count).map (fun k => (Scalar.round (Scalar.ofNat k * step)).toNat) ++ [rows]

/-- The number of blocks for a wish: at least one and at most one for every row. -/
def blockCount (rows : Nat) (wish : Int) : Nat := (max 1 (min wish rows)).toNat

/-- The blocks of rows, none of them empty (`_row_chunks`). -/
def rowBlocks (α : Type) [Scalar α] (rows : Nat) (wish : Int) : List (Nat × Nat) :=
  let bounds := blockBounds α rows (blockCount rows wish)
  (bounds.zip bounds.tail).filter fun (start, stop) => start < stop

namespace Remap

variable {α : Type} [Scalar α]

/-- The operator put together from its blocks (`build_matrix_dask`). -/
def blockwiseOperator (r : Remap α) (weights : Option (Array α)) (wish : Int) :
    Except Error (SparseMatrix α) := do
  let blocks ← (rowBlocks α r.target.rows wish).mapM fun (start, stop) =>
    return (← r.build { weights := weights, rows := some (start, stop) }).1
  blocks.foldlM SparseMatrix.append (SparseMatrix.empty r.target.size r.source.size)

end Remap

end Regrid

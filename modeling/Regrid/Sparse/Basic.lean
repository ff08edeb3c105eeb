import Regrid.Tensor

/-!
# Sparse matrices as lists of entries

A sparse matrix is its shape and a list of entries, in the order in which they were added. Several
entries may share a coordinate; the matrix stands for the dense one whose element is the sum of the
entries at it (`dense`). Adding checks the bounds, so every stored entry lies inside the shape.

Model of `SparseMatrixCOO` as a value: every operation here gives a new matrix. The class itself
changes in place and buffers single entries, which is `BufferedMatrix`.
-/

namespace Regrid

/-- One stored value of a sparse matrix. -/
structure Entry (α : Type) where
  row : Nat
  col : Nat
  value : α
  deriving DecidableEq

/-- A sparse matrix: its shape and its entries in stored order (`SparseMatrixCOO`). -/
structure SparseMatrix (α : Type) where
  rows : Nat
  cols : Nat
  entries : List (Entry α)

/-- A sum per row together with the number of terms that went into all of them. -/
structure Totals (α : Type) where
  terms : Nat
  values : Array α

namespace SparseMatrix

variable {α : Type}

/-- The matrix of a shape without entries. -/
def empty (rows cols : Nat) : SparseMatrix α := ⟨rows, cols, []⟩

/-- The matrix of a given shape without entries. A shape has two extents, none of them negative. -/
def ofShape : List Number → Except Error (SparseMatrix α)
  | [r, c] =>
    if r.below 0 || c.below 0 then
      .error (.dimensionMismatch
        ("Invalid matrix shape " ++ (Datum.tuple [.number r, .number c]).quoted) .absent .absent)
    else do
      let rows ← r.toInt
      let cols ← c.toInt
      return empty rows.toNat cols.toNat
  | _ => .error .invalidValue

/-- The shape as a value to show. -/
def shape (m : SparseMatrix α) : Datum := .shape [m.rows, m.cols]

/-- The number of stored entries. -/
def size (m : SparseMatrix α) : Nat := m.entries.length

/-! ## Adding entries -/

/-- Add one entry at the end (`SparseMatrixCOO.add`). The position is checked as it is given and
truncated afterwards. -/
def add (m : SparseMatrix α) (row col : Number) (value : α) : Except Error (SparseMatrix α) := do
  unless row.atLeast 0 && row.below m.rows do
    throw (.outOfRange (.number row) (.int m.rows) "matrix rows")
  unless col.atLeast 0 && col.below m.cols do
    throw (.outOfRange (.number col) (.int m.cols) "matrix columns")
  let r ← row.toInt
  let c ← col.toInt
  return { m with entries := m.entries ++ [⟨r.toNat, c.toNat, value⟩] }

/-- Refuses the first index outside of `[0, size)` (`SparseMatrixCOO._check_bounds`). -/
def checkBounds (indices : List Int) (size : Nat) (place : String) : Except Error Unit :=
  match indices.find? fun i => i < 0 || (size : Int) ≤ i with
  | some i => .error (.outOfRange (.int i) (.int size) place)
  | none => .ok ()

/-- Add many entries at the end, or none if one of them does not fit
(`SparseMatrixCOO.add_entries`). -/
def addEntries (m : SparseMatrix α) (rows cols : List Int) (values : List α) :
    Except Error (SparseMatrix α) := do
  unless rows.length = cols.length ∧ cols.length = values.length do
    throw (.dimensionMismatch "rows, cols and vals must have the same length"
      (.int rows.length) (.tuple [.int cols.length, .int values.length]))
  checkBounds rows m.rows "matrix rows"
  checkBounds cols m.cols "matrix columns"
  let new := (rows.zip (cols.zip values)).map fun (r, c, v) => ⟨r.toNat, c.toNat, v⟩
  return { m with entries := m.entries ++ new }

/-- Add the entries of a matrix of the same shape (`SparseMatrixCOO.append`). -/
def append (m other : SparseMatrix α) : Except Error (SparseMatrix α) :=
  if other.rows = m.rows ∧ other.cols = m.cols then
    .ok { m with entries := m.entries ++ other.entries }
  else
    .error (.dimensionMismatch "Cannot append matrices of different shape" m.shape other.shape)

/-- Remove all entries (`SparseMatrixCOO.clear`). -/
def clear (m : SparseMatrix α) : SparseMatrix α := { m with entries := [] }

/-! ## Reshaping -/

/-- Exchange rows and columns; the order of the entries stays (`SparseMatrixCOO.transpose`). -/
def transpose (m : SparseMatrix α) : SparseMatrix α :=
  ⟨m.cols, m.rows, m.entries.map fun e => ⟨e.col, e.row, e.value⟩⟩

/-- The entries on and below the diagonal (`SparseMatrixCOO.lower_triangle`). -/
def lowerTriangle (m : SparseMatrix α) : SparseMatrix α :=
  { m with entries := m.entries.filter fun e => e.col ≤ e.row }

section Scaling

variable [Scalar α]

/-- Multiply every entry by the factor of its row (`SparseMatrixCOO.scale_rows`). -/
def scaleRows (m : SparseMatrix α) (factors : Tensor α) : Except Error (SparseMatrix α) :=
  if factors.shape = [m.rows] then
    .ok { m with
      entries := m.entries.map fun e => { e with value := e.value * factors.values.getD e.row 0 } }
  else
    .error (.dimensionMismatch "Row factors do not match matrix" (.shape [m.rows])
      (.shape factors.shape))

/-- Multiply every entry by the factor of its column (`SparseMatrixCOO.scale_cols`). -/
def scaleCols (m : SparseMatrix α) (factors : Tensor α) : Except Error (SparseMatrix α) :=
  if factors.shape = [m.cols] then
    .ok { m with
      entries := m.entries.map fun e => { e with value := e.value * factors.values.getD e.col 0 } }
  else
    .error (.dimensionMismatch "Column factors do not match matrix" (.shape [m.cols])
      (.shape factors.shape))

end Scaling

/-! ## Dense views -/

section Dense

variable [Scalar α]

/-- The element of the dense matrix: the sum of the entries at a coordinate. -/
def dense (m : SparseMatrix α) (row col : Nat) : α :=
  Scalar.sum ((m.entries.filter fun e => e.row = row ∧ e.col = col).map Entry.value)

/-- Add each term to the element of its index, in the order of the terms. -/
def bucketSums (n : Nat) (terms : List (Nat × α)) : Array α :=
  terms.foldl (fun acc (i, v) => acc.modify i (· + v)) (Array.replicate n 0)

/-- The rows of the dense matrix (`SparseMatrixCOO.todense`). -/
def denseRows (m : SparseMatrix α) : List (Array α) :=
  let flat := bucketSums (m.rows * m.cols)
    (m.entries.map fun e => (e.row * m.cols + e.col, e.value))
  (List.range m.rows).map fun r => flat.extract (r * m.cols) ((r + 1) * m.cols)

/-- The sums of given terms per row. -/
def totals (m : SparseMatrix α) (terms : List (Nat × α)) : Totals α :=
  ⟨terms.length, bucketSums m.rows terms⟩

/-- The sum of every row (`SparseMatrixCOO.sum_per_row_array`). -/
def rowSums (m : SparseMatrix α) : Totals α :=
  m.totals (m.entries.map fun e => (e.row, e.value))

/-- The sums of the rows that have an entry, by row (`SparseMatrixCOO.sum_per_row`). -/
def occupiedRowSums (m : SparseMatrix α) : List (Nat × α) :=
  let sums := m.rowSums.values
  let occupied := m.entries.foldl (fun acc e => acc.set! e.row true) (Array.replicate m.rows false)
  (List.range m.rows).filterMap fun r =>
    if occupied.getD r false then some (r, sums.getD r 0) else none

/-- The product with a vector (`SparseMatrixCOO.apply`). With `skipNaN` an entry whose input value
is no number counts for nothing; otherwise it makes the element no number, even under a zero
weight. -/
def apply (m : SparseMatrix α) (x : Tensor α) (skipNaN : Bool) : Except Error (Totals α) :=
  if x.shape = [m.cols] then
    let read := m.entries.map fun e => (e, x.values.getD e.col 0)
    let kept := if skipNaN then read.filter fun (_, v) => !Scalar.isNaN v else read
    .ok (m.totals (kept.map fun (e, v) => (e.row, e.value * v)))
  else
    .error (.dimensionMismatch "Vector does not match matrix columns" (.shape [m.cols])
      (.shape x.shape))

end Dense

end SparseMatrix

end Regrid

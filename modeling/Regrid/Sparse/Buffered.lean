import Regrid.Attempt
import Regrid.Keyed
import Regrid.Sparse.Merge

/-!
# Matrices while they are built

An operator is built entry by entry. In memory a matrix keeps the entries in three columns, and
those that were added one at a time wait in a buffer until somebody reads the columns. Stored
indices have 64 bits. An operation that fails may have emptied the buffer before. Matrices that are
built at the same time stand in a workspace under names.

Model of `SparseMatrixCOO` as it is changed in place. `flush` is `_flush`, and reading `row`, `col`
or `data` folds the buffer in first, which is `columns`.
-/

namespace Regrid

/-- A matrix in memory (`SparseMatrixCOO`). -/
structure BufferedMatrix (α : Type) where
  rows : Nat
  cols : Nat
  /-- The rows, the columns and the values of the stored entries. -/
  rowColumn : List Int := []
  colColumn : List Int := []
  valueColumn : List α := []
  /-- The entries that wait. -/
  pending : List (Int × Int × α) := []

/-- Indices as they are stored, in 64 bits. -/
def storedIndices (ns : List Number) : Except Error (List Int) := ns.mapM Number.toIdentifier

namespace BufferedMatrix

variable {α : Type}

/-- The matrix of a shape without entries. -/
def empty (rows cols : Nat) : BufferedMatrix α := { rows, cols }

/-- The number of entries. -/
def size (m : BufferedMatrix α) : Nat := m.valueColumn.length + m.pending.length

/-- The matrix of the stored entries. -/
def stored (m : BufferedMatrix α) : SparseMatrix α where
  rows := m.rows
  cols := m.cols
  entries := (m.rowColumn.zip (m.colColumn.zip m.valueColumn)).map fun (r, c, v) =>
    ⟨r.toNat, c.toNat, v⟩

/-! ## Reading and adding -/

/-- Fold the buffer into the columns (`SparseMatrixCOO._flush`). It is emptied first, and the
columns grow one by one. -/
def flush : Attempt (BufferedMatrix α) Unit := do
  let waiting := (← get).pending
  unless waiting.isEmpty do
    modify fun m => { m with pending := [] }
    let rows ← storedIndices (waiting.map fun (r, _, _) => .whole r)
    modify fun m => { m with rowColumn := m.rowColumn ++ rows }
    let cols ← storedIndices (waiting.map fun (_, c, _) => .whole c)
    modify fun m => { m with colColumn := m.colColumn ++ cols }
    modify fun m => { m with valueColumn := m.valueColumn ++ waiting.map fun (_, _, v) => v }

/-- The columns with all entries. -/
def columns : Attempt (BufferedMatrix α) (List Int × List Int × List α) := do
  flush
  let m ← get
  return (m.rowColumn, m.colColumn, m.valueColumn)

/-- The matrix with all entries. -/
def settled : Attempt (BufferedMatrix α) (SparseMatrix α) := do
  flush
  return (← get).stored

/-- Add one entry to the buffer (`SparseMatrixCOO.add`). The position is checked as it is given and
truncated afterwards. -/
def add (row col : Number) (value : α) : Attempt (BufferedMatrix α) Unit := do
  let m ← get
  unless row.atLeast 0 && row.below m.rows do
    throw (.outOfRange (.number row) (.int m.rows) "matrix rows")
  unless col.atLeast 0 && col.below m.cols do
    throw (.outOfRange (.number col) (.int m.cols) "matrix columns")
  let r ← row.toInt
  let c ← col.toInt
  modify fun m => { m with pending := m.pending ++ [(r, c, value)] }

/-- Add many entries, behind those that wait, or none if one of them does not fit
(`SparseMatrixCOO.add_entries`). -/
def addEntries (rows cols : List Number) (values : List α) :
    Attempt (BufferedMatrix α) Unit := do
  let rows ← storedIndices rows
  let cols ← storedIndices cols
  unless rows.length = cols.length ∧ cols.length = values.length do
    throw (.dimensionMismatch "rows, cols and vals must have the same length"
      (.int rows.length) (.tuple [.int cols.length, .int values.length]))
  unless rows.isEmpty do
    let m ← get
    SparseMatrix.checkBounds rows m.rows "matrix rows"
    SparseMatrix.checkBounds cols m.cols "matrix columns"
    flush
    modify fun m => { m with
      rowColumn := m.rowColumn ++ rows
      colColumn := m.colColumn ++ cols
      valueColumn := m.valueColumn ++ values }

/-- Add the entries of another matrix of the same shape. -/
def append (other : BufferedMatrix α) : Attempt (BufferedMatrix α) Unit := do
  let m ← get
  unless other.rows = m.rows ∧ other.cols = m.cols do
    throw (.dimensionMismatch "Cannot append matrices of different shape" m.stored.shape
      other.stored.shape)
  let (r, c, v) ← columns.resultOn other
  addEntries (r.map .whole) (c.map .whole) v

/-- Remove all entries (`SparseMatrixCOO.clear`). -/
def clear : Attempt (BufferedMatrix α) Unit :=
  modify fun m => { m with rowColumn := [], colColumn := [], valueColumn := [], pending := [] }

/-! ## New matrices -/

/-- The result of filling a new matrix. If that fails there is none. -/
def filled (m : BufferedMatrix α) (fill : Attempt (BufferedMatrix α) Unit) :
    Except Error (BufferedMatrix α) :=
  match fill.run m with
  | .ok _ m => .ok m
  | .error e _ => .error e

/-- The matrix of a given shape, with entries in three lists if there are any. -/
def ofShape (shape : List Number) (entries : Option (List Number × List Number × List α)) :
    Except Error (BufferedMatrix α) := do
  let m : SparseMatrix α ← SparseMatrix.ofShape shape
  match entries with
  | none => return empty m.rows m.cols
  | some (rows, cols, values) => (empty m.rows m.cols).filled (addEntries rows cols values)

/-- The matrix of a shape with entries in three columns. -/
def ofColumns (rows cols : Nat) (columns : List Int × List Int × List α) :
    Except Error (BufferedMatrix α) :=
  (empty rows cols).filled
    (addEntries (columns.1.map .whole) (columns.2.1.map .whole) columns.2.2)

/-- A matrix with its entries in three columns. -/
def ofMatrix (m : SparseMatrix α) : Except Error (BufferedMatrix α) :=
  ofColumns m.rows m.cols
    (m.entries.map fun e => e.row, m.entries.map fun e => e.col, m.entries.map Entry.value)

/-- The same matrix once more (`SparseMatrixCOO.copy`). -/
def copy : Attempt (BufferedMatrix α) (BufferedMatrix α) := do
  let m ← get
  ofColumns m.rows m.cols (← columns)

/-- The matrix with rows and columns exchanged (`SparseMatrixCOO.transpose`). -/
def transpose : Attempt (BufferedMatrix α) (BufferedMatrix α) := do
  let m ← get
  let (r, c, v) ← columns
  ofColumns m.cols m.rows (c, r, v)

/-- The matrix of the entries on and below the diagonal (`SparseMatrixCOO.lower_triangle`). -/
def lowerTriangle : Attempt (BufferedMatrix α) (BufferedMatrix α) := do
  let m ← get
  let (r, c, v) ← columns
  let kept := (r.zip (c.zip v)).filter fun (r, c, _) => c ≤ r
  ofColumns m.rows m.cols (kept.map (·.1), kept.map (·.2.1), kept.map (·.2.2))

/-! ## Changes in place and products -/

section Values

variable [Scalar α]

/-- Sum the entries of one coordinate, in reading order (`SparseMatrixCOO.sum_duplicates`). -/
def sumDuplicates : Attempt (BufferedMatrix α) Unit := do
  let merged := (← settled).sumDuplicates.entries
  modify fun m => { m with
    rowColumn := merged.map fun e => e.row
    colColumn := merged.map fun e => e.col
    valueColumn := merged.map Entry.value }

/-- Multiply every entry by a factor of its row (`SparseMatrixCOO.scale_rows`). -/
def scaleRows (factors : Tensor α) : Attempt (BufferedMatrix α) Unit := do
  let m ← get
  unless factors.shape = [m.rows] do
    throw (.dimensionMismatch "Row factors do not match matrix" (.shape [m.rows])
      (.shape factors.shape))
  let (r, _, v) ← columns
  modify fun m => { m with
    valueColumn := (v.zip r).map fun (v, r) => v * factors.values.getD r.toNat 0 }

/-- Multiply every entry by a factor of its column (`SparseMatrixCOO.scale_cols`). -/
def scaleCols (factors : Tensor α) : Attempt (BufferedMatrix α) Unit := do
  let m ← get
  unless factors.shape = [m.cols] do
    throw (.dimensionMismatch "Column factors do not match matrix" (.shape [m.cols])
      (.shape factors.shape))
  let (_, c, v) ← columns
  modify fun m => { m with
    valueColumn := (v.zip c).map fun (v, c) => v * factors.values.getD c.toNat 0 }

/-- The sum of every row (`SparseMatrixCOO.sum_per_row_array`). -/
def rowSums : Attempt (BufferedMatrix α) (Totals α) := return (← settled).rowSums

/-- The product with a vector (`SparseMatrixCOO.apply`). -/
def apply (x : Tensor α) (skipNaN : Bool) : Attempt (BufferedMatrix α) (Totals α) := do
  let m ← get
  unless x.shape = [m.cols] do
    throw (.dimensionMismatch "Vector does not match matrix columns" (.shape [m.cols])
      (.shape x.shape))
  (← settled).apply x skipNaN

end Values

end BufferedMatrix

/-! ## Workspaces -/

/-- Matrices under names. -/
abbrev Workspace (α : Type) := List (String × BufferedMatrix α)

/-- One call on the matrices of a workspace. -/
inductive MatrixCall (α : Type) where
  | new (name : String) (shape : List Number)
      (entries : Option (List Number × List Number × List α))
  | add (name : String) (row col : Number) (value : α)
  | addEntries (name : String) (rows cols : List Number) (values : List α)
  /-- Add the entries of another matrix, or of the same one. -/
  | append (name other : String)
  | clear (name : String)
  | sumDuplicates (name : String)
  | scaleRows (name : String) (factors : Tensor α)
  | scaleCols (name : String) (factors : Tensor α)
  | copy (name result : String)
  | transpose (name result : String)
  | lowerTriangle (name result : String)

namespace Workspace

variable {α : Type}

/-- The matrix of a name. -/
def look (name : String) : Attempt (Workspace α) (BufferedMatrix α) := do
  match valueAt? name (← get) with
  | some m => return m
  | none => throw .missingKey

/-- Change the matrix of a name. What a failure leaves of it stays. -/
def update {β : Type} (name : String) (change : Attempt (BufferedMatrix α) β) :
    Attempt (Workspace α) β := do
  match change.run (← look name) with
  | .ok b m =>
    modify (assignKey name m)
    return b
  | .error e m =>
    modify (assignKey name m)
    throw e

/-- Keep a new matrix that is made from another one. -/
def derive (name result : String) (change : Attempt (BufferedMatrix α) (BufferedMatrix α)) :
    Attempt (Workspace α) Unit := do
  let m ← update name change
  modify (assignKey result m)

/-- Add the entries of a matrix to one of the same shape. The matrices may be the same. -/
def append (name other : String) : Attempt (Workspace α) Unit := do
  let m ← look name
  let o ← look other
  unless o.rows = m.rows ∧ o.cols = m.cols do
    throw (.dimensionMismatch "Cannot append matrices of different shape" m.stored.shape
      o.stored.shape)
  let (r, c, v) ← update other BufferedMatrix.columns
  update name (BufferedMatrix.addEntries (r.map .whole) (c.map .whole) v)

end Workspace

/-- What a call does. -/
def MatrixCall.run {α : Type} [Scalar α] : MatrixCall α → Attempt (Workspace α) Unit
  | new name shape entries => do
    let m ← BufferedMatrix.ofShape shape entries
    modify (assignKey name m)
  | add name row col value => Workspace.update name (BufferedMatrix.add row col value)
  | addEntries name rows cols values =>
    Workspace.update name (BufferedMatrix.addEntries rows cols values)
  | append name other => Workspace.append name other
  | clear name => Workspace.update name BufferedMatrix.clear
  | sumDuplicates name => Workspace.update name BufferedMatrix.sumDuplicates
  | scaleRows name factors => Workspace.update name (BufferedMatrix.scaleRows factors)
  | scaleCols name factors => Workspace.update name (BufferedMatrix.scaleCols factors)
  | copy name result => Workspace.derive name result BufferedMatrix.copy
  | transpose name result => Workspace.derive name result BufferedMatrix.transpose
  | lowerTriangle name result => Workspace.derive name result BufferedMatrix.lowerTriangle

/-- The workspace after many calls. One that fails does not keep the next ones from being made. -/
def MatrixCall.runAll {α : Type} [Scalar α] (calls : List (MatrixCall α)) (w : Workspace α) :
    Workspace α :=
  calls.foldl (fun w call => call.run.after w) w

end Regrid

import Regrid.Range
import Regrid.Remap.Basic
import Regrid.Sparse.Buffered
import Regrid.Sparse.RowCheck

/-!
# The operator of a pair of lattices

The entry of a target cell `b` and a source cell `a` is the weight of `b` times the fraction of
`b` that `a` covers. So every row sums to the weight of its cell, and a field of ones becomes the
weights. An operator can be built for some target cells only, and added to a matrix that is
already there.

Model of `Hntr.matrix`. `build` makes a new matrix, and `addOperator` adds to the accumulator `M` of
the call.
-/

namespace Regrid

/-- A choice of target cells. -/
inductive CellFilter where
  /-- The cells where a mask is set. -/
  | mask (t : Tensor Bool)
  /-- The cells for which a test holds. -/
  | test (holds : Nat → Except Error Bool)

namespace CellFilter

/-- The cells whose number leaves a remainder. -/
def residue (modulus remainder : Int) : CellFilter :=
  test fun b =>
    if modulus = 0 then .error .divisionByZero else .ok ((b : Int).fmod modulus == remainder)

/-- Which of `n` cells are chosen. Every one of them is tested. -/
def chosen (n : Nat) : CellFilter → Except Error (Array Bool)
  | mask t =>
    if t.shape = [n] then .ok t.values
    else .error (.dimensionMismatch "bindex_clip does not match destination grid" (.shape [n])
      (.shape t.shape))
  | test holds => return (← (List.range n).mapM holds).toArray

/-- Which of `n` cells a filter chooses, if there is one; without a filter all are chosen. -/
def chosenBy (n : Nat) : Option CellFilter → Except Error (Array Bool)
  | none => .ok (Array.replicate n true)
  | some f => f.chosen n

end CellFilter

/-- How an operator is to be built. -/
structure OperatorRequest (α : Type) where
  /-- The target cells to build; all of them if there is no filter. -/
  filter : Option CellFilter := none
  /-- The weights of the target cells; all are one if there are none. -/
  weights : Option (Array α) := none
  /-- With a tolerance, the row sums are checked against the weights. -/
  tolerance : Option α := none
  /-- The range of target rows to build; all of them if there is none. -/
  rows : Option (Int × Int) := none

namespace Remap

variable {α : Type} [Scalar α]

/-- Refuses a field of another size than a lattice (`Hntr._check_size`). -/
def checkSize (xs : Array α) (size : Nat) (name : String) : Except Error Unit :=
  if xs.size = size then .ok ()
  else .error (.dimensionMismatch (name ++ " has wrong size") (.int size) (.int xs.size))

/-- The matrix entry of an overlap. The overlap counts columns of the source and is divided by the
cell of the target, whose column is `target.columns` of the circle and whose band is that of its
row. -/
def entryOf (r : Remap α) (weights : Array α) (o : Overlap α) : Entry α :=
  let ratio : α := Scalar.ofNat r.target.columns / Scalar.ofNat r.source.columns
  ⟨o.target, o.source,
    weights.getD o.target 0 * o.amount * ratio / r.target.band (o.target / r.target.columns)⟩

/-- The operator for the target rows of a range. -/
def operator (r : Remap α) (weights : Array α) (rows : Option (Int × Int)) : SparseMatrix α :=
  ⟨r.target.size, r.source.size, (r.overlaps rows).map (r.entryOf weights)⟩

/-- A weight of one for every target cell. -/
def unitWeights (r : Remap α) : Array α := Array.replicate r.target.size 1

/-- The operator of the unit weights. -/
def unitOperator (r : Remap α) : SparseMatrix α := r.operator r.unitWeights none

/-- The target cells that a request is responsible for. -/
def builtCells (r : Remap α) (rows : Option (Int × Int)) (chosen : Array Bool) : Array Bool :=
  match rows with
  | none => chosen
  | some (start, stop) =>
    let n := r.target.size
    let low := boundedPlace n (start * r.target.columns)
    let high := boundedPlace n (stop * r.target.columns)
    (chosen.toList.zipIdx.map fun (b, i) => b && low ≤ i && i < high).toArray

/-- Refuses a matrix of another shape than the operator to be added to it. -/
def checkShape (r : Remap α) (rows cols : Nat) : Except Error Unit :=
  if rows = r.target.size ∧ cols = r.source.size then .ok ()
  else .error (.dimensionMismatch "Accumulator does not match grids"
    (.shape [r.target.size, r.source.size]) (.shape [rows, cols]))

/-- The entries of the chosen cells in the target rows of a range. -/
def part (r : Remap α) (weights : Array α) (rows : Option (Int × Int)) (chosen : Array Bool) :
    SparseMatrix α :=
  let whole := r.operator weights rows
  { whole with entries := whole.entries.filter fun e => chosen.getD e.row false }

/-- The rows that a request is responsible for whose sum is further than the tolerance from the
weight. Without a tolerance none is looked at. -/
def faults (r : Remap α) (q : OperatorRequest α) (weights : Array α) (chosen : Array Bool)
    (part : SparseMatrix α) : Except Error (List (Nat × α)) :=
  match q.tolerance with
  | none => .ok []
  | some tolerance =>
    part.checkRowSums (Tensor.ofArray weights) tolerance
      (some (Tensor.ofArray (r.builtCells q.rows chosen)))

/-- The operator as requested, and the rows whose sum is reported (`Hntr.matrix`). -/
def build (r : Remap α) (q : OperatorRequest α) :
    Except Error (SparseMatrix α × List (Nat × α)) := do
  let weights := q.weights.getD r.unitWeights
  checkSize weights r.target.size "WTB"
  let chosen ← CellFilter.chosenBy r.target.size q.filter
  let part := r.part weights q.rows chosen
  return (part, ← r.faults q weights chosen part)

/-- The operator as requested as a matrix in memory, to be added to one of a shape. -/
def chunkFor (r : Remap α) (q : OperatorRequest α) (rows cols : Nat) :
    Except Error (BufferedMatrix α × List (Nat × α)) := do
  r.checkShape rows cols
  let (part, bad) ← r.build q
  return (← BufferedMatrix.ofMatrix part, bad)

/-- Add the operator as requested to a matrix in memory (`Hntr.matrix`). The rows whose sum is
reported are added like the others. -/
def addOperator (r : Remap α) (q : OperatorRequest α) :
    Attempt (BufferedMatrix α) (List (Nat × α)) := do
  let m ← get
  let (chunk, bad) ← (r.chunkFor q m.rows m.cols : Except Error _)
  BufferedMatrix.append chunk
  return bad

end Remap

end Regrid

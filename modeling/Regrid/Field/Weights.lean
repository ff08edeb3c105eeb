import Regrid.Field.Polar
import Regrid.Range
import Regrid.Sparse.Merge

/-!
# Applying weights to fields with missing values

A stack of fields is multiplied by a matrix of weights, field by field. Without `skipMissing` a
missing input makes every cell that it reaches missing. With it, a cell gets the weighted average
of the inputs that are there, or is missing if the weight of these is zero or too small a part of
the total weight. Gaps that all fields share are taken from the first of them, else every field has
its own. If nothing at all is missing in the whole stack, the product is divided by the total
weights instead, as far as they are known.

Model of `apply_weights_core`, which is `regridStack`.
-/

namespace Regrid

variable {α : Type} [Scalar α]

/-- The common extent of two vectors that are combined element by element. One element stands for
as many as the other vector has. -/
def commonExtent (m n : Nat) : Except Error Nat :=
  if m = n ∨ n = 1 then .ok m else if m = 1 then .ok n else .error .invalidValue

/-- The element at a place, where one element stands for all. -/
def repeated (xs : Array α) (i : Nat) : α :=
  xs.getD (if xs.size = 1 then 0 else i) Scalar.undefined

/-- Element by element combination of two vectors. -/
def combine (f : α → α → α) (xs ys : Array α) : Except Error (Array α) := do
  let n ← commonExtent xs.size ys.size
  return ((List.range n).map fun i => f (repeated xs i) (repeated ys i)).toArray

/-- One where a value is there, zero where it is missing. -/
def presence (x : Array α) : Array α := x.map fun v => if Scalar.isNaN v then 0 else 1

/-- The values with zero at the places where another field has gaps. -/
def withoutGaps (gapped x : Array α) : Array α :=
  Array.zipWith (fun g v => if Scalar.isNaN g then 0 else v) gapped x

/-- A field that has its gaps where all fields have them, if there is one. -/
def sharedGaps? : List (Array α) → Option (Array α)
  | [] => none
  | x :: xs =>
    if xs.all fun y => y.map Scalar.isNaN == x.map Scalar.isNaN then some x else none

/-- How to apply weights. -/
structure WeightOptions (α : Type) where
  skipMissing : Bool
  /-- The weight of every target cell when nothing is missing. -/
  totals : Option (Array α)
  /-- The part of the total weight that may be missing. -/
  threshold : α

namespace SparseMatrix

/-- The product with a vector of the right length (`_matmul`). -/
def times (m : SparseMatrix α) (x : Array α) : Array α :=
  (m.totals (m.entries.map fun e => (e.row, e.value * x.getD e.col 0))).values

/-- The least part of the total weight that must be there. -/
def leastPart (threshold : α) : α :=
  1 - threshold - Scalar.ratio 1 1000000

/-- The averages of a field over the values that are there, if its gaps are those of `gapped`. -/
def presentAverages (m : SparseMatrix α) (o : WeightOptions α) (gapped x : Array α) :
    Except Error (Array α) := do
  let sums := m.times (withoutGaps gapped x)
  let weights := m.times (presence gapped)
  let means ← combine (· / ·) sums weights
  let means ← match o.totals with
    | none => pure means
    | some totals => do
      let parts ← combine (· / ·) weights totals
      combine (fun part mean => if part < leastPart o.threshold then Scalar.undefined else mean)
        parts means
  combine (fun w mean => if w == 0 then Scalar.undefined else mean) weights means

/-- The weights applied to every field of a stack. -/
def applyToStack (m : SparseMatrix α) (o : WeightOptions α) (fields : List (Array α)) :
    Except Error (List (Array α)) :=
  if !o.skipMissing then .ok (fields.map m.times)
  else if fields.any fun x => x.any Scalar.isNaN then
    match sharedGaps? fields with
    | some gapped => fields.mapM (m.presentAverages o gapped)
    | none => fields.mapM fun x => m.presentAverages o x x
  else
    match o.totals with
    | none => .ok (fields.map m.times)
    | some totals => do
      discard (commonExtent m.rows totals.size)
      fields.mapM fun x => combine (· / ·) (m.times x) totals

end SparseMatrix

/-- The fields of a stack, as the parts of consecutive values. -/
def fieldsOf (values : Array α) (count size : Nat) : List (Array α) :=
  (List.range count).map fun k => values.extract (k * size) ((k + 1) * size)

/-- The shape of a stack of fields as the shape of the stack and that of a field, whose axes are
the last ones. -/
def splitShape (shape : List Nat) (fieldAxes : Int) : List Nat × List Nat :=
  shape.splitAt (boundedPlace shape.length (shape.length - fieldAxes))

/-- The weights applied to a stack of fields. The entries of the matrix are merged first; the
fields have as many values as the matrix has columns, and the results fill the target shape. -/
def applyWeights (m : SparseMatrix α) (o : WeightOptions α) (data : Tensor α) (fieldAxes : Int)
    (target : List Nat) : Except Error (Tensor α) := do
  let (stack, field) := splitShape data.shape fieldAxes
  let size := Tensor.extent field
  unless size = m.cols do throw .invalidValue
  let fields := fieldsOf data.values (Tensor.extent stack) size
  let results ← m.sumDuplicates.applyToStack o fields
  let values := results.toArray.flatten
  let shape := stack ++ target
  unless values.size = Tensor.extent shape do throw .invalidValue
  return ⟨shape, values⟩

/-- A stack of fields taken to the target shape: the weights applied, the results rounded as they
are stored, and if polar means are asked for, these in the polar rows (`apply_weights_core`). -/
def regridStack (m : SparseMatrix α) (o : WeightOptions α) (rounding : Rounding α)
    (polarMean : Bool) (data : Tensor α) (fieldAxes : Int) (target : List Nat) :
    Except Error (Tensor α) := do
  let out := (← applyWeights m o data fieldAxes target).map rounding.store
  if polarMean then polarMeans rounding out else return out

end Regrid

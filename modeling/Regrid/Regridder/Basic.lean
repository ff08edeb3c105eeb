import Regrid.Field.Weights
import Regrid.Remap.Grids

/-!
# Regridders

A regridder holds the weights that take fields from a source to a target grid, and how it treats
missing values and poles. Its weights are the operator of the two grids with one entry per
coordinate; the sum of each row is the weight of a target cell when nothing is missing.

Model of `Regridder` with its weights: `_generate_weights` and `_set_matrix`.
-/

namespace Regrid

/-- How a regridder treats missing values and polar rows. -/
structure RegridOptions (α : Type) where
  skipMissing : Bool
  /-- The part of the weight of a cell that may be missing. -/
  threshold : α
  polarMean : Bool

/-- Weights between two grids (`Regridder`). -/
structure Regridder (α : Type) where
  grids : GridPair α
  options : RegridOptions α
  /-- The weights with one entry per coordinate. -/
  weights : SparseMatrix α
  /-- The row sums of the weights. -/
  totals : Array α

namespace Regridder

variable {α : Type} [Trigonometry α]

/-- The regridder with the weights of a matrix (`Regridder._set_matrix`). -/
def ofMatrix (grids : GridPair α) (options : RegridOptions α) (m : SparseMatrix α) :
    Regridder α :=
  let weights := m.sumDuplicates
  ⟨grids, options, weights, weights.rowSums.values⟩

/-- The regridder of two grids, its weights built in blocks of rows if so many are wished
(`Regridder._generate_weights`). -/
def generate (grids : GridPair α) (options : RegridOptions α) (blocks : Option Int) :
    Except Error (Regridder α) := do
  let m ← match blocks with
    | some wish => grids.remap.blockwiseOperator none wish
    | none => pure grids.remap.unitOperator
  return ofMatrix grids options m

/-- The weights with every row multiplied by a factor, and without the entries that become zero. -/
def scaleRows (r : Regridder α) (factors : Tensor α) : Except Error (Regridder α) := do
  let m ← r.weights.scaleRows factors
  return ofMatrix r.grids r.options { m with entries := m.entries.filter fun e => e.value != 0 }

/-- The regridded values of a stack of fields, whose axes are the last two. -/
def values (r : Regridder α) (o : RegridOptions α) (rounding : Rounding α) (data : Tensor α) :
    Except Error (Tensor α) :=
  regridStack r.weights ⟨o.skipMissing, some r.totals, o.threshold⟩ rounding o.polarMean data 2
    r.grids.target.shape

/-- The text of a regridder. -/
def text (r : Regridder α) : String :=
  "Regridder(src_shape=" ++ (Datum.shape r.grids.source.shape).quoted ++ ", dst_shape="
    ++ (Datum.shape r.grids.target.shape).quoted ++ ", skipna="
    ++ (Datum.flag r.options.skipMissing).quoted ++ ", mean_polar="
    ++ (Datum.flag r.options.polarMean).quoted ++ ")"

end Regridder

end Regrid

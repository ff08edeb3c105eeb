import Regrid.Regridder.Apply
import Regrid.Sparse.RowCheck

/-!
# The quality of weights

Two views of the weights of a regridder: the weight of every target cell as fields on the target
grid, and a report of counts and extremes. A cell without weight is called unmapped.

Model of `Regridder.diagnostics` and `Regridder.quality_report`.
-/

namespace Regrid.Regridder

/-- The number of target cells without weight. -/
def unmappedCount (r : Regridder Float) : Nat := r.totals.toList.countP fun w => w == 0.0

/-- A field on the target grid. -/
def targetField (r : Regridder Float) (name : String) (element : ElementType) (xs : Array Float) :
    String × LabelledField :=
  (name, {
    name := some name
    dims := [spatialNames.1, spatialNames.2]
    values := ⟨r.grids.target.shape, xs⟩
    element
    coordinates := r.targetCoordinates })

/-- The weight of every target cell, and a mask of those that have none
(`Regridder.diagnostics`). -/
def diagnostics (r : Regridder Float) (stamp : String) : FieldSet where
  fields := [
    r.targetField "weight_sum" .float64 r.totals,
    r.targetField "unmapped_mask" .int8 (r.totals.map fun w => if w == 0.0 then 1.0 else 0.0)]
  attributes := .ofEvent stamp
    "Generated spatial diagnostics from Regridder weights."

/-- The rows whose sum is further than a tolerance from one. -/
def violations (r : Regridder Float) (tolerance : Float) : Except Error (List (Nat × Float)) :=
  GridPair.conservationFaults r.weights tolerance none

/-- The least of a list of numbers; of none, no number. -/
def least (xs : List Float) : Float :=
  xs.foldl (fun a b => if b < a then b else a) (xs.headD (0.0 / 0.0))

/-- The greatest of a list of numbers; of none, no number. -/
def greatest (xs : List Float) : Float :=
  xs.foldl (fun a b => if a < b then b else a) (xs.headD (0.0 / 0.0))

/-- The entries of the report, given the number of rows that do not sum to one
(`Regridder.quality_report`). Sums that are no number do not count. -/
def reportEntries (r : Regridder Float) (violations : Nat) : List (String × Number) :=
  let n := r.grids.target.size
  let sums := r.totals.toList.filter fun w => !w.isNaN
  [("n_src", .whole r.grids.source.size), ("n_dst", .whole n), ("n_weights", .whole r.weights.size),
    ("unmapped_count", .whole r.unmappedCount),
    ("unmapped_fraction", .real (r.unmappedCount.toFloat / n.toFloat)),
    ("weight_sum_min", .real (least sums)), ("weight_sum_max", .real (greatest sums)),
    ("weight_sum_mean", .real (Scalar.sum sums / sums.length.toFloat)),
    ("conservation_violations", .whole violations)]

/-- How a report is to be given. -/
inductive ReportFormat where
  | entries
  | dataset
  deriving DecidableEq, Repr

/-- The format of a name. -/
def ReportFormat.ofName : String → Except Error ReportFormat
  | "dict" => .ok entries
  | "dataset" => .ok dataset
  | s => .error (.refused (.unknownFormat s))

/-- The name under which the row check of a report warns. -/
def reportName : String := "Regridder weights"

/-- A report as a dataset: every entry is a variable with a description. -/
def reportDataset (stamp : String) (report : List (String × Number)) : Dataset where
  attributes := .ofEvent stamp "Generated quality report."
  data := report.map fun (k, x) =>
    (k, .single x [("description", .text ("Quality metric: " ++ k))])

end Regrid.Regridder

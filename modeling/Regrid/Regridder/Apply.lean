import Regrid.Field.Join
import Regrid.Regridder.Basic

/-!
# Regridding fields

A regridder replaces the spatial dimensions of a field by those of its target grid and keeps the
others. In a set of fields, those without spatial dimensions are carried over as they are. What
was done is written into the history of the result.

Model of `Regridder._regrid_dataarray` and `Regridder._regrid_dataset`.
-/

namespace Regrid.Regridder

/-- The coordinates of the target grid that lie on its two dimensions. -/
def targetCoordinates (r : Regridder Float) : List (String × Variable) :=
  r.grids.target.toCoordinates.coordinatesOn [spatialNames.1, spatialNames.2]

/-- What a regridder says about itself in the history of its results. -/
def event (o : RegridOptions Float) : String :=
  "Regridded using xcoupler.Regridder (conservative overlap, skipna="
    ++ (Datum.flag o.skipMissing).quoted ++ ", na_thres=" ++ Decimal.shortest o.threshold
    ++ ", mean_polar=" ++ (Datum.flag o.polarMean).quoted ++ ")"

/-- The options for one application: those of the regridder, if none are given. -/
def optionsFor (r : Regridder Float) (skipMissing : Option Bool) (threshold : Option Float) :
    RegridOptions Float :=
  { r.options with
    skipMissing := skipMissing.getD r.options.skipMissing
    threshold := threshold.getD r.options.threshold }

/-- The regridded field, without a word in its history. -/
def field (r : Regridder Float) (o : RegridOptions Float) (f : LabelledField) :
    Except Error LabelledField := do
  let some (lat, lon) := f.spatialDims? | throw (.refused (.noSpatialDimensions f.shownName))
  let shape := [f.extent lat, f.extent lon]
  unless shape = r.grids.source.shape do
    throw (.dimensionMismatch
      ("Spatial shape of " ++ f.shownName.quoted ++ " does not match the source grid")
      (.shape r.grids.source.shape) (.shape shape))
  let (others, data) := f.withLast [lat, lon]
  let element := f.element.computed
  return { f with
    dims := others ++ [spatialNames.1, spatialNames.2]
    values := ← r.values o element.rounding data
    element
    coordinates := assignKeys r.targetCoordinates (f.coordinatesOff [lat, lon]) }

/-- The regridded field (`Regridder._regrid_dataarray`). -/
def applyTo (r : Regridder Float) (o : RegridOptions Float) (stamp : String) (f : LabelledField) :
    Except Error LabelledField := do
  let out ← r.field o f
  return { out with attributes := ← out.attributes.record stamp (event o) }

/-- The regridded fields of a set (`Regridder._regrid_dataset`). Those without spatial dimensions
stay as they are, on the labels of the other ones too. -/
def applyToAll (r : Regridder Float) (o : RegridOptions Float) (stamp : String) (s : FieldSet) :
    Except Error FieldSet := do
  let fields ← s.fields.mapM fun (k, f) => do
    if f.spatialDims?.isSome then return (k, ← r.field o f) else return (k, f)
  let out ← FieldSet.join { s with fields }
  return { out with attributes := ← out.attributes.record stamp (event o) }

end Regrid.Regridder

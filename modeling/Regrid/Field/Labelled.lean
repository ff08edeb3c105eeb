import Regrid.Dataset.Basic
import Regrid.Field.Element
import Regrid.LatLon.Coordinates

/-!
# Fields with named dimensions

A labelled field is a tensor with a name for each axis, coordinates on some of the axes, and
attributes. Its spatial dimensions are found by their short names, or else as those of the
coordinates that are recognised as latitude and longitude.

Model of `Regridder._source_dims` and of the fields it is asked about.
-/

namespace Regrid

/-- A field with named dimensions. -/
structure LabelledField where
  name : Option String
  dims : List String
  values : Tensor Float
  element : ElementType
  coordinates : List (String × Variable) := []
  attributes : Attributes := []

/-- The names of the dimensions of latitude and longitude. -/
def spatialNames : String × String := ("lat", "lon")

/-- The values of a tensor in another order of its axes: axis `k` of the result is axis
`order[k]`. -/
def Tensor.permute (t : Tensor Float) (order : List Nat) : Tensor Float :=
  let extents := t.shape.toArray
  let axes := List.range t.shape.length
  let strides := (axes.map fun i => Tensor.extent (t.shape.drop (i + 1))).toArray
  let along := fun (offsets : List Nat) axis => offsets.flatMap fun o =>
    (List.range (extents.getD axis 0)).map fun i => o + i * strides.getD axis 0
  let offsets := order.foldl along [0]
  ⟨order.map fun axis => extents.getD axis 0, (offsets.map fun o => t.values.getD o 0.0).toArray⟩

namespace LabelledField

/-- The name as a value to show. -/
def shownName (f : LabelledField) : Datum := f.name.elim .absent .text

/-- The extent of a dimension. -/
def extent (f : LabelledField) (dim : String) : Nat :=
  (valueAt? dim (f.dims.zip f.values.shape)).getD 0

/-- Whether the field has a name for each axis, and coordinates that fit on them. -/
def consistent (f : LabelledField) : Bool :=
  f.dims.length == f.values.shape.length
    && f.coordinates.all fun (_, v) =>
      v.dims.length == v.values.shape.length
        && (v.dims.zip v.values.shape).all fun (d, n) => f.dims.contains d && f.extent d == n

/-- A field whose coordinates must fit on it. -/
def checked (f : LabelledField) : Except Error LabelledField :=
  if f.consistent then .ok f else .error .invalidValue

/-- The dimensions of latitude and longitude, if the field has both (`Regridder._source_dims`). -/
def spatialDims? (f : LabelledField) : Option (String × String) :=
  if f.dims.contains spatialNames.1 && f.dims.contains spatialNames.2 then some spatialNames
  else
    let ds : Dataset := { coordinates := f.coordinates }
    match ds.coordinate? .latitude, ds.coordinate? .longitude with
    | some lat, some lon =>
      match lat.dims, lon.dims with
      | [y], [x] => some (y, x)
      | _, _ => none
    | _, _ => none

/-- The values with the given dimensions as the last ones, and the names of the others. -/
def withLast (f : LabelledField) (last : List String) : List String × Tensor Float :=
  let others := f.dims.filter fun d => !last.contains d
  (others, f.values.permute ((others ++ last).map fun d => f.dims.idxOf d))

/-- The coordinates that touch none of some dimensions. -/
def coordinatesOff (f : LabelledField) (dims : List String) : List (String × Variable) :=
  f.coordinates.filter fun (_, v) => !v.dims.any dims.contains

end LabelledField

/-- Fields that belong together. -/
structure FieldSet where
  fields : List (String × LabelledField) := []
  attributes : Attributes := []

namespace FieldSet

/-- All coordinates of the fields. -/
def coordinates (s : FieldSet) : List (String × Variable) :=
  lastValues (s.fields.flatMap fun (_, f) => f.coordinates)

/-- Whether the fields agree on the extents of their dimensions. -/
def consistent (s : FieldSet) : Bool :=
  let extents := s.fields.flatMap fun (_, f) => f.dims.zip f.values.shape
  extents.all fun (d, n) => valueAt? d extents == some n

/-- The fields, each with all coordinates that lie on its dimensions. -/
def shareCoordinates (s : FieldSet) : FieldSet :=
  let all := s.coordinates
  { s with fields := s.fields.map fun (k, f) =>
      (k, { f with coordinates := all.filter fun (_, v) => v.dims.all f.dims.contains }) }

/-- The set of given fields, with the given coordinates. A field on the one dimension of its own
name is a coordinate. -/
def ofFields (attributes : Attributes) (coordinates : List (String × Variable))
    (fields : List (String × LabelledField)) : Except Error FieldSet := do
  let isIndex := fun (p : String × LabelledField) => p.2.dims == [p.1]
  let indices := (fields.filter isIndex).map fun (k, f) =>
    (k, (⟨f.dims, f.values.map Number.real, f.attributes⟩ : Variable))
  let all := coordinates ++ indices
  let data := fields.filter (!isIndex ·)
  let held := data.map fun (k, f) =>
    (k, (⟨f.dims, f.values.map Number.real, f.attributes⟩ : Variable))
  discard (Dataset.ofVariables [] all held)
  return { attributes, fields := data.map fun (k, f) =>
    (k, { f with coordinates := all.filter fun (_, v) => v.dims.all f.dims.contains }) }

end FieldSet

end Regrid

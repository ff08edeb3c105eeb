import Regrid.Dataset.Basic
import Regrid.LatLon.Grid

/-!
# Grids and their coordinates

A dataset describes a grid by the latitudes and longitudes of its cell centres, or directly by the
numbers of the grid among its attributes. `LatLon.toCoordinates` writes both, `LatLon.ofDataset`
reads either; the numbers win. Coordinates are recognised by their attributes first and by name
second.

Model of `create_hntr_grid_dataset` and `hntr_grid_from_dataset`, and of the methods `to_dataset`
and `from_dataset` of `HntrGrid`, which are `LatLon.store` and `LatLon.restore`.
-/

namespace Regrid

/-! ## Recognising latitude and longitude -/

/-- How one of the two coordinates of the sphere shows itself. -/
structure CoordinateKind where
  name : String
  short : String
  units : List String
  axis : String

/-- Degrees north of the equator. -/
def CoordinateKind.latitude : CoordinateKind :=
  ⟨"latitude", "lat",
    ["degree_north", "degree_N", "degreeN", "degrees_north", "degrees_N", "degreesN"], "Lat"⟩

/-- Degrees east of the prime meridian. -/
def CoordinateKind.longitude : CoordinateKind :=
  ⟨"longitude", "lon",
    ["degree_east", "degree_E", "degreeE", "degrees_east", "degrees_E", "degreesE"], "Lon"⟩

/-- Whether the attributes of a coordinate say that it is of a kind. -/
def CoordinateKind.describes (k : CoordinateKind) (as : Attributes) : Bool :=
  as.text? "standard_name" == some k.name
    || (as.text? "units").any k.units.contains
    || as.text? "long_name" == some k.name
    || as.text? "_CoordinateAxisType" == some k.axis

/-- The variable of a dataset that is of a kind: the only one whose attributes say so, or, if none
does, the one of its full name. -/
def Dataset.coordinate? (ds : Dataset) (k : CoordinateKind) : Option Variable :=
  let byAttributes := ds.coordinates.filter fun (_, v) => k.describes v.attributes
  let byStandardName := ds.data.filter fun (_, v) =>
    v.attributes.text? "standard_name" == some k.name
  match byAttributes ++ byStandardName with
  | [] => ds.get? k.name
  | [(_, v)] => some v
  | _ => none

namespace LatLon

/-- The latitude and the longitude of a dataset: both by kind, or else both by their short names. -/
def findCoordinates (ds : Dataset) : Except Error (Variable × Variable) :=
  match ds.coordinate? .latitude, ds.coordinate? .longitude with
  | some lat, some lon => .ok (lat, lon)
  | _, _ =>
    match valueAt? "lat" ds.coordinates, valueAt? "lon" ds.coordinates with
    | some lat, some lon => .ok (lat, lon)
    | _, _ => .error (.malformedGrid .noCoordinates)

/-! ## From coordinates to a grid -/

section Centres

variable {α : Type} [Trigonometry α]

/-- Whether two numbers are close: within `1e-8` and a hundred-thousandth part of the second. -/
def close (x y : α) : Bool :=
  (decide (Scalar.abs (x - y) ≤ Scalar.ratio 1 100000000 + Scalar.ratio 1 100000 * Scalar.abs y)
    && Scalar.isFinite y) || x == y

/-- The differences between neighbours. -/
def differences (xs : List α) : List α :=
  (xs.zip (xs.drop 1)).map fun (x, y) => y - x

/-- The middle value of a list, or the mean of the two middle ones. -/
def median (xs : List α) : α :=
  if xs.any Scalar.isNaN then Scalar.undefined
  else
    let sorted := (xs.mergeSort fun x y => x ≤ y).toArray
    let n := sorted.size
    if n = 0 then Scalar.undefined
    else if n % 2 = 1 then sorted.getD (n / 2) 0
    else (sorted.getD (n / 2 - 1) 0 + sorted.getD (n / 2) 0) / Scalar.ofNat 2

/-- The offset of the first column, from the longitudes of a global grid. -/
def offsetOf (longitudes : List α) : Except Error α := do
  let n := longitudes.length
  if n = 0 then throw .divisionByZero
  let step := Scalar.ofNat 360 / Scalar.ofNat n
  if 1 < n ∧ !(differences longitudes).all (close · step) then
    throw (.malformedGrid (.longitudes (Scalar.toFloat step)))
  let west := longitudes.headD 0 - Scalar.ratio 1 2 * step
  return Trigonometry.modulo ((west + Scalar.ofNat 180) / step) n

/-- The spacing of the rows in degrees. Rows at the poles may be larger, so with more than three
rows the outermost steps do not count. -/
def spacingOf (latitudes : List α) : Except Error α := do
  let n := latitudes.length
  if n = 1 then return Scalar.ofNat 180
  let steps := differences latitudes
  if steps.any (· ≤ 0) then throw (.malformedGrid .latitudesNotAscending)
  let inner := if 3 < n then (steps.drop 1).dropLast else steps
  let step := median inner
  unless inner.all (close · step) do throw (.malformedGrid .latitudesIrregular)
  return step

/-- The grid of cell centres. -/
def ofCentres (latitudes longitudes : List α) (radius : α) : Except Error (LatLon α) := do
  let offset ← offsetOf longitudes
  let spacing ← spacingOf latitudes
  ofCounts longitudes.length latitudes.length offset (some (spacing * Scalar.ofNat 60)) radius

end Centres

/-- The grid that a dataset describes, on a sphere of the given radius
(`hntr_grid_from_dataset`). -/
def ofDataset (ds : Dataset) (radius : Option Float) : Except Error (LatLon Float) := do
  let radius := radius.getD earthRadius
  match ds.attributes.get? "im", ds.attributes.get? "jm", ds.attributes.get? "offi",
      ds.attributes.get? "dlat" with
  | some im, some jm, some offi, some dlat =>
    let columns ← im.toInt
    let rows ← jm.toInt
    let offset ← offi.toFloat
    let spacing ← dlat.toFloat
    ofCounts columns rows offset (some spacing) radius
  | _, _, _, _ =>
    let (lat, lon) ← findCoordinates ds
    unless lat.values.rank = 1 ∧ lon.values.rank = 1 do
      throw (.malformedGrid .notOneDimensional)
    ofCentres lat.floats.toList lon.floats.toList radius

/-! ## From a grid to coordinates -/

/-- The bounds of each cell along one axis, side by side. -/
def bounds (edges : Array Float) : Array Float :=
  ((edges.zip (edges.extract 1 edges.size)).toList.flatMap fun (x, y) => [x, y]).toArray

/-- The numbers of a grid as attributes. -/
def attributes (g : LatLon Float) : Attributes :=
  [("im", .int g.columns), ("jm", .int g.rows), ("offi", .real g.offset), ("dlat", .real g.spacing)]

/-- The dataset of a grid: centres, bounds and areas of its cells, and its numbers as attributes
(`create_hntr_grid_dataset`). -/
def toCoordinates (g : LatLon Float) : Dataset where
  attributes := g.attributes
  coordinates := [
    ("lat", .reals ["lat"] [g.rows] g.latitudes
      [("units", .text "degrees_north"), ("standard_name", .text "latitude"),
        ("bounds", .text "lat_b")]),
    ("lon", .reals ["lon"] [g.columns] g.longitudes
      [("units", .text "degrees_east"), ("standard_name", .text "longitude"),
        ("bounds", .text "lon_b")]),
    ("lat_b", .reals ["lat", "nv"] [g.rows, 2] (bounds g.latitudeEdges)),
    ("lon_b", .reals ["lon", "nv"] [g.columns, 2] (bounds g.longitudeEdges))]
  data := [
    ("area", .reals ["lat", "lon"] g.shape g.cellAreas
      [("units", .text "m2"), ("standard_name", .text "cell_area")])]

/-! ## Storing the numbers of a grid -/

/-- The variable that holds the numbers of the grid stored under a name. -/
def infoName (name : String) : String := name ++ ".info"

/-- A store with the numbers of a grid as attributes of one variable (`HntrGrid.to_dataset`). -/
def store (g : LatLon Float) (name : String) : Dataset where
  data := [(infoName name, .single 0
    [("im", .int g.columns), ("jm", .int g.rows), ("offi", .real g.offset),
      ("dlat", .real g.spacing), ("radius", .real g.radius),
      ("offi.comment",
        .text "Fraction of cells from the date line to the western edge of cell 0"),
      ("dlat.comment", .text "Minutes of latitude of non-polar cells")])]

/-- The grid stored under a name (`HntrGrid.from_dataset`). -/
def restore (ds : Dataset) (name : String) : Except Error (LatLon Float) := do
  let some info := ds.get? (infoName name) | throw .missingKey
  let as := info.attributes
  let columns ← (← as.get "im").toInt
  let rows ← (← as.get "jm").toInt
  let offset ← (← as.get "offi").toFloat
  let spacing ← (← as.get "dlat").toFloat
  let radius ← match as.get? "radius" with
    | some r => r.toFloat
    | none => pure earthRadius
  ofCounts columns rows offset (some spacing) radius

end LatLon

end Regrid

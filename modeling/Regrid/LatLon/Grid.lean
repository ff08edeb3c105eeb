import Regrid.Angle
import Regrid.Error
import Regrid.LatLon.Lattice

/-!
# Global latitude-longitude grids

A grid is described by five numbers: its columns and rows, the offset of its first column from the
date line, the spacing of its rows in minutes of latitude, and the radius of its sphere. Rows lie
symmetrically about the equator with that spacing; the outermost ones reach the poles, whatever the
spacing leaves to them. `make` accepts the numbers that describe such a partition.

Model of `HntrGrid`, of `_sine_edges`, and of the factory `create_global_hntr_grid`.
-/

namespace Regrid

/-- A structured global grid (`HntrGrid`). -/
structure LatLon (α : Type) where
  columns : Nat
  rows : Nat
  /-- Columns between the date line and the western edge of column `0`. -/
  offset : α
  /-- Minutes of latitude of the rows that do not touch a pole. -/
  spacing : α
  radius : α

namespace LatLon

variable {α : Type}

/-- The number of cells. -/
def size (g : LatLon α) : Nat := g.columns * g.rows

/-- Rows and columns of a field on the grid. -/
def shape (g : LatLon α) : List Nat := [g.rows, g.columns]

/-- Whether two grids have the same five numbers. -/
def same [Scalar α] (g h : LatLon α) : Bool :=
  g.columns == h.columns && g.rows == h.rows && g.offset == h.offset && g.spacing == h.spacing
    && g.radius == h.radius

variable [Trigonometry α]

open Trigonometry

/-! ## Grids that are accepted -/

/-- The radius of the Earth in metres (`EQ_RAD`). -/
def earthRadius : α := Scalar.ofNat 6371000

/-- The angle of the northern edge of row `j`, counted from one, in radians. -/
def edgeAngle (rows : Nat) (spacing : α) (j : Nat) : α :=
  let half : α := Scalar.ratio 1 2
  (Scalar.ofNat j + half - half * Scalar.ofNat (1 + rows)) * spacing * minute

/-- Sines of the latitudes between rows (`_sine_edges`). -/
def sineEdges (rows : Nat) (spacing : α) : Array α :=
  ((List.range (rows + 1)).map fun j =>
    if j = 0 then -1 else if j = rows then 1 else sin (edgeAngle rows spacing j)).toArray

/-- Whether some value of a list is not above the one before it. -/
def hasStep (xs : List α) : Bool :=
  (xs.zip (xs.drop 1)).any fun (x, y) => y - x ≤ 0

/-- The grid of two counts and three numbers. Without a spacing the rows divide the meridian
equally. -/
def ofCounts (columns rows : Int) (offset : α) (spacing : Option α) (radius : α) :
    Except Error (LatLon α) := do
  if columns ≤ 0 ∨ rows ≤ 0 then throw (.malformedGrid (.notPositive columns rows))
  let r := rows.toNat
  let spacing := spacing.getD (Scalar.ofNat (180 * 60) / Scalar.ofNat r)
  unless Scalar.isFinite spacing && decide (0 < spacing) do
    throw (.malformedGrid (.spacing (Scalar.toFloat spacing)))
  unless Scalar.isFinite offset do throw (.malformedGrid (.offset (Scalar.toFloat offset)))
  unless Scalar.isFinite radius && decide (0 < radius) do
    throw (.malformedGrid (.radius (Scalar.toFloat radius)))
  if hasStep (sineEdges r spacing).toList then
    throw (.malformedGrid (.overrun r (Scalar.toFloat spacing)))
  unless Scalar.isFinite (radius * radius) do throw .tooLarge
  return ⟨columns.toNat, r, offset, spacing, radius⟩

/-- The two counts as integers, if they are whole. -/
def wholeCounts (columns rows : Number) : Except Error (Int × Int) := do
  let fault := .malformedGrid (.notIntegral columns rows)
  let c ← columns.toInt
  unless columns.toRat? == some (c : Rat) do throw fault
  let r ← rows.toInt
  unless rows.toRat? == some (r : Rat) do throw fault
  return (c, r)

/-- The grid of five numbers, of which the first two must be whole (`HntrGrid.__post_init__`). -/
def make (columns rows : Number) (offset : α) (spacing : Option α) (radius : α) :
    Except Error (LatLon α) := do
  let (c, r) ← wholeCounts columns rows
  ofCounts c r offset spacing radius

/-- The global grid of a resolution in degrees; the counts are rounded
(`create_global_hntr_grid`). -/
def ofResolution (latitude longitude offset : Float) : Except Error (LatLon Float) := do
  let count (turn step : Float) : Except Error Int :=
    if step == 0.0 then .error .divisionByZero
    else (Number.real (turn / step)).round.mapError Error.ofNotInteger
  let columns ← count 360.0 longitude
  let rows ← count 180.0 latitude
  ofCounts columns rows offset (some (latitude * 60.0)) earthRadius

/-! ## What a grid consists of -/

/-- The partition of the sphere that the grid describes. -/
def lattice (g : LatLon α) : Lattice α :=
  ⟨g.columns, g.offset, sineEdges g.rows g.spacing⟩

/-- The area of a cell in each row (`HntrGrid.dxyp`). -/
def rowAreas (g : LatLon α) : Array α :=
  let l := g.lattice
  ((List.range g.rows).map (l.rowArea turn g.radius)).toArray

/-- The area of a cell in one row; negative numbers count from the north, and a row has a whole
one. -/
def rowArea (g : LatLon α) : Number → Except Error α
  | .real _ => .error .badIndex
  | .whole j =>
    let k := if j < 0 then j + g.rows else j
    if 0 ≤ k then (g.rowAreas[k.toNat]?).elim (.error .badIndex) .ok else .error .badIndex

/-- The area of every cell (`HntrGrid.cell_areas`). -/
def cellAreas (g : LatLon α) : Array α := g.lattice.cellAreas turn g.radius

/-- Latitudes between rows, in degrees (`HntrGrid.lat_edges`). -/
def latitudeEdges (g : LatLon α) : Array α :=
  g.lattice.edges.map fun s => arcsin s * (Scalar.ofNat 180 / pi)

/-- Longitudes between columns, in degrees (`HntrGrid.lon_edges`). -/
def longitudeEdges (g : LatLon α) : Array α :=
  ((List.range (g.columns + 1)).map fun i =>
    Scalar.ofInt (-180)
      + (g.offset + Scalar.ofNat i) * (Scalar.ofNat 360 / Scalar.ofNat g.columns)).toArray

/-- The middles between neighbours. -/
def middles (xs : Array α) : Array α :=
  (xs.zip (xs.extract 1 xs.size)).map fun (x, y) => Scalar.ratio 1 2 * (x + y)

/-- Latitudes of the middles of the rows, in degrees (`HntrGrid.lat_centers`). -/
def latitudes (g : LatLon α) : Array α := middles g.latitudeEdges

/-- Longitudes of the middles of the columns, in degrees (`HntrGrid.lon_centers`). -/
def longitudes (g : LatLon α) : Array α := middles g.longitudeEdges

/-- The text of a grid. -/
def text (g : LatLon Float) : String :=
  "HntrGrid(im=" ++ toString g.columns ++ ", jm=" ++ toString g.rows ++ ", offi="
    ++ Decimal.shortest g.offset ++ ", dlat=" ++ Decimal.shortest g.spacing ++ ", radius="
    ++ Decimal.shortest g.radius ++ ")"

end LatLon

end Regrid

import Regrid.LatLon.Lattice
import Regrid.Remap.Span

/-!
# Overlaps of two lattices

The overlap of two cells is the product of the overlap of their columns, as a fraction of a source
column, and the overlap of their bands, in sine of latitude. Either is found by one sweep along the
edges of the target, with a cursor on the source that only moves on.

The sweep around the circle works on distances in units of which a source column has as many as the
target has columns; so all edges are whole numbers if the offsets are. It begins one turn west of
source column `0`, and the column numbers it finds are not folded: column `i` and column
`i + columns` are the same column, one turn apart.

Model of `Hntr`, from its grids to `Hntr.overlaps`: `columnSeams` is the loop of
`_partition_east_west`, `bandSeams` that of `_partition_north_south`.
-/

namespace Regrid

/-- Two lattices, to move fields from one to the other (`Hntr`). -/
structure Remap (α : Type) where
  source : Lattice α
  target : Lattice α

/-- A pair of a target and a source cell, row or column that overlap, and by how much. -/
structure Overlap (α : Type) where
  target : Nat
  source : Nat
  amount : α

/-! ## Around the circle -/

/-- A source column and the position of its eastern edge. -/
structure ColumnCursor (α : Type) where
  cell : Int
  edge : α

namespace ColumnCursor

variable {α : Type} [Scalar α]

/-- Move east by columns of a width until the eastern edge is not west of a position; at most so
many times. -/
def advance (width position : α) : Nat → ColumnCursor α → ColumnCursor α
  | 0, c => c
  | n + 1, c =>
    if c.edge < position then advance width position n ⟨c.cell + 1, c.edge + width⟩ else c

/-- A number of moves that reaches a position. -/
def stepsTo (width position : α) (c : ColumnCursor α) : Nat :=
  (Scalar.ceil ((position - c.edge) / width)).toNat + 1

/-- The seam at a position, and the cursor behind it. The edges of two columns coincide only if they
are equal. -/
def seam (width position : α) (c : ColumnCursor α) : Seam α × ColumnCursor α :=
  let c := c.advance width position (c.stepsTo width position)
  if c.edge == position then
    (⟨c.cell, 0, c.cell + 1, 0⟩, ⟨c.cell + 1, c.edge + width⟩)
  else
    let beyond := (c.edge - position) / width
    (⟨c.cell, beyond, c.cell, 1 - beyond⟩, c)

/-- The seams at positions from west to east. -/
def sweep (width : α) : ColumnCursor α → List α → List (Seam α)
  | _, [] => []
  | c, p :: ps =>
    let (s, c') := c.seam width p
    s :: sweep width c' ps

end ColumnCursor

/-! ## From pole to pole -/

namespace Lattice

variable {α : Type} [Scalar α]

/-- The first band at or after `j` whose northern edge is not south of a sine of latitude, looking
at most at so many bands. -/
def bandAt (l : Lattice α) (sine : α) : Nat → Nat → Nat
  | 0, j => j
  | n + 1, j => if l.edge (j + 1) < sine then bandAt l sine n (j + 1) else j

/-- The seam at a sine of latitude, looked for from band `j` on, and the band behind it. -/
def bandSeam (l : Lattice α) (sine : α) (j : Nat) : Seam α × Nat :=
  let j := l.bandAt sine (l.rows - j) j
  let north := l.edge (j + 1)
  if north == sine then (⟨j, 0, j + 1, 0⟩, j + 1)
  else (⟨j, north - sine, j, sine - l.edge j⟩, j)

/-- The seams at sines of latitude from south to north, looked for from band `j` on. -/
def bandSweep (l : Lattice α) : Nat → List α → List (Seam α)
  | _, [] => []
  | j, p :: ps =>
    let (s, j') := l.bandSeam p j
    s :: bandSweep l j' ps

end Lattice

namespace Remap

variable {α : Type} [Scalar α]

/-! ## Spans -/

/-- The seams at the western edges of the target columns. -/
def columnSeams (r : Remap α) : List (Seam α) :=
  let m : α := Scalar.ofNat r.source.columns
  let n : α := Scalar.ofNat r.target.columns
  let start : ColumnCursor α := ⟨0, (1 + r.source.offset - m) * n⟩
  start.sweep n ((List.range r.target.columns).map fun k =>
    (Scalar.ofNat k + r.target.offset) * m)

/-- The source columns under every target column, not folded (`Hntr._partition_east_west`). The last
column ends at the seam of the first one, a turn later. -/
def columnSpans (r : Remap α) : List (Span α) :=
  match r.columnSeams with
  | [] => []
  | s :: ss => Span.ofSeams (s :: ss ++ [{ s with left := s.left + r.source.columns }])

/-- The seams between the target bands, and those at the poles. -/
def bandSeams (r : Remap α) : List (Seam α) :=
  let inner := (List.range (r.target.rows - 1)).map fun j => r.target.edge (j + 1)
  ⟨-1, 0, 0, 0⟩ :: r.source.bandSweep 0 inner
    ++ [⟨r.source.rows - 1, 0, r.source.rows, 0⟩]

/-- The source bands under every target band (`Hntr._partition_north_south`). -/
def bandSpans (r : Remap α) : List (Span α) := Span.ofSeams r.bandSeams

/-! ## Overlaps -/

/-- Every pair of bands that overlap, with their overlap in sine of latitude; by target band, then
by source band (`Hntr.lat_overlaps`). -/
def bandOverlaps (r : Remap α) : List (Overlap α) :=
  r.bandSpans.zipIdx.flatMap fun (s, j) =>
    (s.cells.map fun i => ⟨j, i.toNat, s.share i (r.source.band i.toNat)⟩).filter
      fun o => o.amount != 0

/-- Every pair of columns that overlap, with the fraction of the source column; by target column,
then eastward (`Hntr.lon_overlaps`). -/
def columnOverlaps (r : Remap α) : List (Overlap α) :=
  r.columnSpans.zipIdx.flatMap fun (s, i) =>
    (s.cells.map fun k => ⟨i, (k % r.source.columns).toNat, s.share k 1⟩).filter
      fun o => o.amount != 0

/-- Every pair of cells that overlap, from pairs of bands. -/
def cellOverlaps (r : Remap α) (bands : List (Overlap α)) : List (Overlap α) :=
  let columns := r.columnOverlaps
  bands.flatMap fun b => columns.map fun c =>
    ⟨b.target * r.target.columns + c.target, b.source * r.source.columns + c.source,
      b.amount * c.amount⟩

/-- Whether a row lies in a range of rows; without a range every row does. -/
def inRows (rows : Option (Int × Int)) (j : Nat) : Bool :=
  rows.all fun (start, stop) => start ≤ j && (j : Int) < stop

/-- Every pair of cells that overlap, for the target bands of a range (`Hntr.overlaps`). -/
def overlaps (r : Remap α) (rows : Option (Int × Int)) : List (Overlap α) :=
  r.cellOverlaps (r.bandOverlaps.filter fun b => inRows rows b.target)

end Remap

end Regrid

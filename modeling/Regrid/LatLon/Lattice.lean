import Regrid.Scalar

/-!
# Lattices on the sphere

A lattice divides the sphere into `columns` arcs of longitude of equal width and into bands between
consecutive latitudes, given by their sines. Sines make areas exact: the part of the sphere between
two latitudes is proportional to the difference of their sines. The first column starts `offset`
columns east of the date line; cell `(j, i)` has the number `j · columns + i`.

A lattice is what `Hntr` takes from an `HntrGrid`: `im`, `offi` and `sin_edges`.
-/

namespace Regrid

/-- A partition of the sphere into cells. -/
structure Lattice (α : Type) where
  columns : Nat
  /-- Columns between the date line and the western edge of column `0`. -/
  offset : α
  /-- Sines of the latitudes between the bands, from pole to pole: one more than there are bands. -/
  edges : Array α

namespace Lattice

variable {α : Type} [Scalar α]

/-- The number of bands. -/
def rows (l : Lattice α) : Nat := l.edges.size - 1

/-- The number of cells. -/
def size (l : Lattice α) : Nat := l.rows * l.columns

/-- The sine of the latitude south of band `j`. -/
def edge (l : Lattice α) (j : Nat) : α := l.edges.getD j 0

/-- The extent of band `j` in sine of latitude. -/
def band (l : Lattice α) (j : Nat) : α := l.edge (j + 1) - l.edge j

/-- The area of a cell in band `j`, where `turn` is the angle of a full turn. -/
def rowArea (l : Lattice α) (turn radius : α) (j : Nat) : α :=
  turn / Scalar.ofNat l.columns * l.band j * (radius * radius)

/-- The area of every cell. -/
def cellAreas (l : Lattice α) (turn radius : α) : Array α :=
  ((List.range l.rows).flatMap fun j =>
    List.replicate l.columns (l.rowArea turn radius j)).toArray

end Lattice

end Regrid

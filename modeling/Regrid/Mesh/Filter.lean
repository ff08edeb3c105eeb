import Regrid.Mesh.Basic

/-!
# Keeping a part of a mesh

`Mesh.filterCells` keeps the cells that pass a test and the vertices that those name. The sizes of
the whole numberings are fixed before, so that the part still knows them. A test can fail on a
cell: then the cells refused so far are gone and nothing else is.

Model of `Grid.filter_cells`.
-/

namespace Regrid

variable {α : Type}

/-- The cells that remain when a test is applied from the left, and the failure of the test if
there is one. The cells behind a failure were not tested. -/
def survivors (test : Cell α → Except Error Bool) : List (Cell α) → List (Cell α) × Option Error
  | [] => ([], none)
  | c :: cs =>
    match test c with
    | .error e => (c :: cs, some e)
    | .ok keep =>
      let (kept, failure) := survivors test cs
      (if keep then c :: kept else kept, failure)

namespace Mesh

/-- The mesh with fixed sizes of its numberings. -/
def freeze (m : Mesh α) : Mesh α :=
  { m with cells := m.cells.freeze, vertices := m.vertices.freeze }

/-- The mesh with other cells. -/
def withCells (m : Mesh α) (cells : List (Cell α)) : Mesh α :=
  { m with cells := { m.cells with items := cells } }

/-- The mesh with the vertices only that some cell names, and with both greatest identifiers taken
anew. -/
def pruneVertices (m : Mesh α) : Mesh α :=
  let named := m.cells.items.flatMap Cell.refs
  let vertices := m.vertices.items.filter fun v => named.contains v.index
  { m with
    cells := m.cells.recount
    vertices := Roster.recount { m.vertices with items := vertices } }

/-- Keep the cells that pass a test, and their vertices (`Grid.filter_cells`). -/
def filterCells (m : Mesh α) (test : Cell α → Except Error Bool) : Mesh α × Except Error Unit :=
  let m := m.freeze
  match survivors test m.cells.items with
  | (cells, some e) => (m.withCells cells, .error e)
  | (cells, none) => ((m.withCells cells).pruneVertices, .ok ())

end Mesh

end Regrid

import Regrid.LatLon.Grid
import Regrid.Mesh.Basic

/-!
# Structured meshes

The product of two rows of edges is a mesh of rectangles. Vertex `(j, i)` has the number `j ·
(columns + 1) + i` and cell `(j, i)` the number `j · columns + i`; cells turn counter-clockwise
from their south-western corner. A global grid becomes the mesh of its edges in degrees.

Model of `create_xy_grid` and `create_lonlat_grid`.
-/

namespace Regrid.Mesh

variable {α : Type}

/-- The vertices of a product of edges, by rows. -/
def productVertices (xs ys : List α) : List (Vertex α) :=
  ys.zipIdx.flatMap fun (y, j) => xs.zipIdx.map fun (x, i) =>
    ⟨x, y, j * xs.length + i⟩

/-- The cell in column `i` and row `j` of so many columns. -/
def productCell (columns : Nat) (area : Nat → Nat → α) (j i : Nat) : Cell α :=
  let corner := j * (columns + 1) + i
  { refs := [(corner : Nat), (corner + 1 : Nat), (corner + columns + 2 : Nat),
      (corner + columns + 1 : Nat)]
    index := (j * columns + i : Nat)
    i := i
    j := j
    nativeArea := area j i }

/-- The cells of a product of edges, by rows. -/
def productCells (columns rows : Nat) (area : Nat → Nat → α) : List (Cell α) :=
  (List.range rows).flatMap fun j => (List.range columns).map (productCell columns area j)

/-- A mesh with the vertices and cells of a product of edges. -/
def product (settings : Mesh α) (xs ys : List α) (area : Nat → Nat → α) : Mesh α :=
  let vertices := productVertices xs ys
  let cells := productCells (xs.length - 1) (ys.length - 1) area
  { settings with
    vertices := { settings.vertices with items := vertices, top := vertices.length - 1 }
    cells := { settings.cells with items := cells, top := cells.length - 1 } }

section Edges

variable [Scalar α]

/-- Whether every number is above the one before it, as far as they can be compared. -/
def increasing (xs : List α) : Bool :=
  (xs.zip (xs.drop 1)).all fun (x, y) => !decide (y - x ≤ 0)

/-- The width between two neighbouring edges. -/
def gap (xs : Array α) (i : Nat) : α := xs.getD (i + 1) 0 - xs.getD i 0

/-- The mesh of rectangles between increasing edges in a plane (`create_xy_grid`). -/
def rectilinear (name : String) (projection : Option String) (xs ys : Array α) :
    Except Error (Mesh α) :=
  if increasing xs.toList && increasing ys.toList then
    .ok (product { name, projection } xs.toList ys.toList fun j i => gap xs i * gap ys j)
  else .error (.malformedGrid .edgesNotIncreasing)

end Edges

/-- The mesh of a global grid, with the areas of its cells on the sphere (`create_lonlat_grid`). -/
def ofLatLon [Trigonometry α] (g : LatLon α) (name : String) : Mesh α :=
  let areas := g.rowAreas
  product { name, kind := .lonLat, coordinates := .lonLat } g.longitudeEdges.toList
    g.latitudeEdges.toList fun j _ => areas.getD j 0

end Regrid.Mesh

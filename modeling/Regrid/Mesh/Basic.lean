import Regrid.Mesh.Roster
import Regrid.Scalar

/-!
# Meshes of polygons

A mesh is a set of polygonal cells and the vertices they are made of. A cell names its vertices by
identifier, in winding order; adding a cell checks that its vertices are there. What the coordinates
mean and whether values live on cells or on vertices are settings of the mesh.

Model of `Grid` with `Vertex`, `Cell`, and the settings `GridType`, `Coordinates` and
`Parameterization`.
-/

namespace Regrid

/-- The overall kind of a mesh (`GridType`). -/
inductive MeshKind where
  | generic
  /-- Rectangles in a plane. -/
  | rectilinear
  /-- A global grid of latitudes and longitudes. -/
  | lonLat
  /-- The overlaps of two other meshes. -/
  | exchange
  deriving DecidableEq, Repr

/-- What the coordinates of the vertices are (`Coordinates`). -/
inductive CoordinateSystem where
  | plane
  | lonLat
  deriving DecidableEq, Repr

/-- Where the values of a field live (`Parameterization`). -/
inductive Parameterization where
  | perCell
  | perVertex
  deriving DecidableEq, Repr

/-- Settings with a numeric code and a name. -/
class Coded (σ : Type) where
  all : List σ
  name : σ → String

namespace Coded

variable {σ : Type} [Coded σ]

/-- The setting of a code, which is its place among all settings. -/
def ofCode (code : Int) : Except Error σ :=
  if code < 0 then .error .invalidValue
  else ((all (σ := σ))[code.toNat]?).elim (.error .invalidValue) .ok

/-- The code of a setting. -/
def code [DecidableEq σ] (s : σ) : Int := (all (σ := σ)).idxOf s

/-- All codes with their names, as a comment. -/
def legend (σ : Type) [Coded σ] : String :=
  ", ".intercalate ((all (σ := σ)).zipIdx.map fun (s, i) => toString i ++ "=" ++ name s)

end Coded

instance : Coded MeshKind where
  all := [.generic, .rectilinear, .lonLat, .exchange]
  name
    | .generic => "GENERIC"
    | .rectilinear => "XY"
    | .lonLat => "LONLAT"
    | .exchange => "EXCHANGE"

instance : Coded CoordinateSystem where
  all := [.plane, .lonLat]
  name
    | .plane => "XY"
    | .lonLat => "LONLAT"

instance : Coded Parameterization where
  all := [.perCell, .perVertex]
  name
    | .perCell => "L0"
    | .perVertex => "L1"

/-- The integer that a value is equal to, as the code of a setting. -/
def Datum.settingCode : Datum → Except Error Int
  | .number x | .stored x =>
    match x.toRat? with
    | some q => if q.den = 1 then .ok q.num else .error .invalidValue
    | none => .error .invalidValue
  | .flag b => .ok (if b then 1 else 0)
  | _ => .error .invalidValue

/-- A point of a mesh (`Vertex`). -/
structure Vertex (α : Type) where
  x : α
  y : α
  index : Int := -1

/-- A polygon of a mesh, closed from the last vertex back to the first (`Cell`). -/
structure Cell (α : Type) where
  /-- The identifiers of the vertices in winding order. -/
  refs : List Int
  index : Int := -1
  /-- Further coordinates: column and row in a structured mesh, the two cells of an overlap. -/
  i : Int := -1
  j : Int := -1
  k : Int := -1
  /-- The area in the coordinates of the mesh. -/
  nativeArea : α

instance {α : Type} : Numbered (Vertex α) where
  index v := v.index
  renumber v n := { v with index := n }

instance {α : Type} : Numbered (Cell α) where
  index c := c.index
  renumber c n := { c with index := n }

/-- Vertices and the cells they bound (`Grid`). -/
structure Mesh (α : Type) where
  name : String := ""
  kind : MeshKind := .rectilinear
  coordinates : CoordinateSystem := .plane
  parameterization : Parameterization := .perCell
  /-- How the plane of the coordinates lies on the globe. -/
  projection : Option String := none
  vertices : Roster (Vertex α) := { what := "vertex" }
  cells : Roster (Cell α) := { what := "cell" }

/-- The text of a vertex. -/
def Vertex.text (v : Vertex Float) : String :=
  toString v.index ++ ":(" ++ Decimal.shortest v.x ++ ", " ++ Decimal.shortest v.y ++ ")"

/-- The text of a cell. -/
def Cell.text {α : Type} (c : Cell α) : String :=
  "Cell(ix=" ++ toString c.index ++ ": [" ++ ", ".intercalate (c.refs.map toString) ++ "])"

namespace Mesh

variable {α : Type}

/-- Add a vertex (`Grid.add_vertex`). -/
def addVertex (m : Mesh α) (v : Vertex α) : Except Error (Mesh α × Vertex α) := do
  let (vertices, v) ← m.vertices.add v
  return ({ m with vertices }, v)

/-- Whether a number names a vertex. -/
def hasVertex (m : Mesh α) (ref : Number) : Bool :=
  match ref.toRat? with
  | some q => q.den == 1 && m.vertices.contains q.num
  | none => false

/-- The first number that names no vertex. -/
def missingVertex? (m : Mesh α) (refs : List Number) : Option Number :=
  refs.find? fun r => !m.hasVertex r

/-- The place of the vertices in messages. -/
def vertexPlace (m : Mesh α) : String := "vertices of grid " ++ Text.quoted m.name

/-- Refuses a list of vertices one of which is not there. -/
def checkVertices (m : Mesh α) (refs : List Number) : Except Error Unit :=
  match m.missingVertex? refs with
  | some r => .error (.notFound (.number r) m.vertexPlace)
  | none => .ok ()

/-- Add a cell whose vertices are there (`Grid.add_cell`). -/
def addCell (m : Mesh α) (c : Cell α) : Except Error (Mesh α × Cell α) := do
  m.checkVertices (c.refs.map .whole)
  let (cells, c) ← m.cells.add c
  return ({ m with cells }, c)

/-- The dimension of the fields on a mesh (`Grid.ndata`). -/
def fieldSize (m : Mesh α) : Int :=
  match m.parameterization with
  | .perVertex => m.vertices.full
  | .perCell => m.cells.full

/-- Remove all cells and vertices (`Grid.clear`). -/
def clear (m : Mesh α) : Mesh α :=
  { m with vertices := m.vertices.clear, cells := m.cells.clear }

/-- The areas of the cells in the coordinates of the mesh, by ascending identifier
(`Grid.native_areas`). -/
def nativeAreas (m : Mesh α) : List α := m.cells.sorted.map Cell.nativeArea

/-- The text of a mesh. -/
def text (m : Mesh α) : String :=
  "Grid(name=" ++ Text.quoted m.name ++ ", type=" ++ Coded.name m.kind ++ ", coordinates="
    ++ Coded.name m.coordinates ++ ", parameterization=" ++ Coded.name m.parameterization
    ++ ", cells=" ++ m.cells.text ++ ", vertices=" ++ m.vertices.text ++ ")"

end Mesh

end Regrid

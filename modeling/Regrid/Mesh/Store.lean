import Regrid.Dataset.Basic
import Regrid.Mesh.Basic

/-!
# Writing a mesh

A mesh is stored under a name as eight variables of a dataset, so several meshes go into one. The
vertices of the cells stand one after the other in one vector, and a second vector says where each
cell begins. Writing is done in two steps: `Ticket.define` declares names, settings and extents,
and `Ticket.write` emits the values, provided that the mesh still has these extents.

Model of `define_grid`, `GridWriteTicket` and `grid_to_dataset`.
-/

namespace Regrid

/-- The names of the variables and dimensions of a stored mesh. -/
structure StoreNames where
  store : String

namespace StoreNames

/-- The variable whose attributes are the settings. -/
def info (n : StoreNames) : String := n.store ++ ".info"

/-- The identifiers of the vertices. -/
def vertexIndex (n : StoreNames) : String := n.store ++ ".vertices.index"

/-- The points of the vertices. -/
def vertexPoints (n : StoreNames) : String := n.store ++ ".vertices.xy"

/-- The identifiers of the cells. -/
def cellIndex (n : StoreNames) : String := n.store ++ ".cells.index"

/-- The further coordinates of the cells. -/
def cellCoordinates (n : StoreNames) : String := n.store ++ ".cells.ijk"

/-- The areas of the cells. -/
def cellAreas (n : StoreNames) : String := n.store ++ ".cells.native_area"

/-- The vertices of all cells, cell after cell. -/
def refs (n : StoreNames) : String := n.store ++ ".cells.vertex_refs"

/-- Where the vertices of each cell begin, and the end. -/
def starts (n : StoreNames) : String := n.store ++ ".cells.vertex_refs_start"

/-- The dimension of the vertices. -/
def vertexDim (n : StoreNames) : String := n.store ++ ".vertices.nrealized"

/-- The dimension of the cells. -/
def cellDim (n : StoreNames) : String := n.store ++ ".cells.nrealized"

/-- The dimension of the beginnings, one more than there are cells. -/
def startDim (n : StoreNames) : String := n.store ++ ".cells.nrealized_plus1"

/-- The dimension of the vertices of all cells. -/
def refDim (n : StoreNames) : String := n.store ++ ".cells.nvertex_refs"

end StoreNames

/-- The version of the layout (`GRID_VERSION`). -/
def storeVersion : Int := 2

/-- The setting that holds the size of the numbering of the cells. It marks the variable with the
settings of a mesh. -/
def cellsFullKey : String := "cells.nfull"

/-- The setting that holds the size of the numbering of the vertices. -/
def verticesFullKey : String := "vertices.nfull"

/-- Explanations of the settings, stored beside them. -/
def storeComments : Attributes :=
  [("type.comment", .text ("The overall type of grid: " ++ Coded.legend MeshKind)),
    ("coordinates.comment", .text ("The coordinate system used to represent grid vertices: "
      ++ Coded.legend CoordinateSystem ++ ". LONLAT means longitude comes before latitude.")),
    ("parameterization.comment", .text ("How values are represented on the grid: "
      ++ Coded.legend Parameterization
      ++ ". L0 is constant per cell, L1 is vertex-valued with linear interpolation.")),
    ("projection.comment", .text ("If coordinates = XY, the projection (PROJ string) used to "
      ++ "convert local XY coordinates to LONLAT coordinates on the surface of the earth.")),
    ("cells.nfull.comment", .text ("The total theoretical number of grid cells (polygons) in this "
      ++ "grid. Depending on parameterization, either cells or vertices correspond to the "
      ++ "dimensionality of the grid's vector space.")),
    ("vertices.nfull.comment", .text "The total theoretical number of vertices on this grid.")]

/-- The projection that is worth storing: that of a plane, if it is not empty. -/
def Mesh.storedProjection? {α : Type} (m : Mesh α) : Option String :=
  match m.coordinates, m.projection with
  | .plane, some s => if s = "" then none else some s
  | _, _ => none

/-- An integer of 64 bits. -/
def stored64 (n : Int) : Except Error Int := (Number.whole n).toIdentifier

/-- What was declared about a mesh that is to be written (`GridWriteTicket`). -/
structure Ticket where
  store : String
  info : Attributes
  /-- The declared extents, by dimension. -/
  dims : List (String × Nat)

/-- The number of vertex references of all cells. -/
def Mesh.refCount {α : Type} (m : Mesh α) : Nat :=
  (m.cells.items.flatMap Cell.refs).length

/-- The extents of a stored mesh, in the order in which they are compared. -/
def Mesh.storeDims {α : Type} (m : Mesh α) (n : StoreNames) : List (String × Nat) :=
  [(n.vertexDim, m.vertices.size), (n.cellDim, m.cells.size), (n.startDim, m.cells.size + 1),
    (n.refDim, m.refCount)]

/-- The settings of a mesh as attributes. -/
def Mesh.storeInfo {α : Type} (m : Mesh α) : Except Error Attributes := do
  let settings : Attributes :=
    [("name", .text m.name), ("version", .int storeVersion), ("type", .int (Coded.code m.kind)),
      ("coordinates", .int (Coded.code m.coordinates)),
      ("parameterization", .int (Coded.code m.parameterization))]
  let projection : Attributes :=
    m.storedProjection?.toList.map fun s => ("projection", .text s)
  let cells ← stored64 m.cells.full
  let vertices ← stored64 m.vertices.full
  let comments := storeComments.filter fun (k, _) =>
    k != "projection.comment" || !projection.isEmpty
  return settings ++ projection ++ [(cellsFullKey, .int cells), (verticesFullKey, .int vertices)]
    ++ comments

/-- The first of several names that is not empty. -/
def firstName : List String → String
  | [] => "grid"
  | s :: ss => if s = "" then firstName ss else s

namespace Ticket

variable {α : Type}

/-- Declare a mesh under a name, or else under its own one (`define_grid`). -/
def define (m : Mesh α) (name : Option String) : Except Error Ticket := do
  let store := firstName [name.getD "", m.name]
  let info ← m.storeInfo
  return ⟨store, info, m.storeDims ⟨store⟩ ++ [("two", 2), ("three", 3)]⟩

/-- Refuses a mesh that has other extents than declared. -/
def checkDims (t : Ticket) (m : Mesh α) : Except Error Unit :=
  (m.storeDims ⟨t.store⟩).forM fun (dim, size) =>
    let declared := (valueAt? dim t.dims).getD 0
    if declared = size then .ok ()
    else .error (.dimensionMismatch
      ("Grid " ++ Text.quoted m.name ++ " changed after define: " ++ dim)
      (.int declared) (.int size))

/-- The position at which each list of a sequence begins, and the end. -/
def startsOf (start : Nat) : List Nat → List Nat
  | [] => [start]
  | n :: ns => start :: startsOf (start + n) ns

/-- A vector of integers of 64 bits. -/
def integerVector (dim : String) (ns : List Int) : Except Error Variable :=
  return Variable.integers dim (← ns.mapM stored64)

/-- The variables of a mesh. -/
def contents (t : Ticket) (m : Mesh Float) : Except Error (List (String × Variable)) := do
  let n : StoreNames := ⟨t.store⟩
  let vertices := m.vertices.sorted
  let cells := m.cells.sorted
  let ijk ← (cells.flatMap fun c => [c.i, c.j, c.k]).mapM stored64
  return [
    (n.info, Variable.single 0 t.info),
    (n.vertexIndex, ← integerVector n.vertexDim (vertices.map Vertex.index)),
    (n.vertexPoints, .reals [n.vertexDim, "two"] [vertices.length, 2]
      (vertices.flatMap fun v => [v.x, v.y]).toArray),
    (n.cellIndex, ← integerVector n.cellDim (cells.map Cell.index)),
    (n.cellCoordinates,
      ⟨[n.cellDim, "three"], ⟨[cells.length, 3], (ijk.map Number.whole).toArray⟩, []⟩),
    (n.cellAreas, .reals [n.cellDim] [cells.length] (cells.map Cell.nativeArea).toArray),
    (n.refs, ← integerVector n.refDim (cells.flatMap Cell.refs)),
    (n.starts, Variable.integers n.startDim
      ((startsOf 0 (cells.map fun c => c.refs.length)).map Int.ofNat))]

/-- Add the variables of a mesh to a dataset (`GridWriteTicket.write`). -/
def write (t : Ticket) (m : Mesh Float) (ds : Dataset) : Except Error Dataset := do
  t.checkDims m
  let ds := { ds with data := assignKeys (← t.contents m) ds.data }
  if ds.consistent then return ds else throw .invalidValue

end Ticket

/-- Write a mesh under a name, or else under its own one (`grid_to_dataset`). -/
def Mesh.toDataset (m : Mesh Float) (name : Option String) (ds : Dataset) :
    Except Error Dataset := do
  (← Ticket.define m name).write m ds

end Regrid

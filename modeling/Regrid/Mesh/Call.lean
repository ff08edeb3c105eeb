import Regrid.Attempt
import Regrid.Mesh.Filter

/-!
# Meshes while they are built

A mesh is built and reduced in place, and the calls that do so are listed as `MeshCall`. Adding a
cell looks up all of its vertices before anything is stored.

Model of the calls on a `Grid` and on its two `GridMap`s that change them, with the state that a
call leaves when it fails.
-/

namespace Regrid

namespace Roster

variable {ε : Type} [Numbered ε]

/-- Take an entity whose identifier is not in use, and tell it as it was taken. -/
def insert (x : ε) : Attempt (Roster ε) ε := do
  let r ← getThe (Roster ε)
  let x := r.numbered x
  if r.contains (Numbered.index x) then
    throw (.duplicateIdentifier (.int (Numbered.index x)) r.what)
  modify fun r => { r with items := r.items ++ [x] }
  modify fun r => { r with top := max r.top (Numbered.index x) }
  return x

/-- Remove the entity of an identifier, and tell it. -/
def remove (index : Int) : Attempt (Roster ε) ε := do
  let (r, x) ← (← getThe (Roster ε)).erase index
  set r
  return x

/-- Fix the size of the whole numbering. -/
def fix (size : Number) : Attempt (Roster ε) Unit := do
  let n ← size.toInt
  modify fun r => r.setFull n

end Roster

/-- A setting of a mesh with a new value. -/
inductive MeshSetting where
  | name (value : String)
  | kind (value : MeshKind)
  | coordinates (value : CoordinateSystem)
  | parameterization (value : Parameterization)
  | projection (value : Option String)

namespace Mesh

variable {α β : Type}

/-- A change of the vertices. -/
def onVertices (x : Attempt (Roster (Vertex α)) β) : Attempt (Mesh α) β :=
  x.within Mesh.vertices fun vertices m => { m with vertices }

/-- A change of the cells. -/
def onCells (x : Attempt (Roster (Cell α)) β) : Attempt (Mesh α) β :=
  x.within Mesh.cells fun cells m => { m with cells }

/-- Add a vertex (`Grid.add_vertex`). -/
def insertVertex (x y : α) (index : Number) : Attempt (Mesh α) (Vertex α) := do
  let index ← index.toInt
  onVertices (Roster.insert { x, y, index })

/-- Add a cell whose vertices are there (`Grid.add_cell`). -/
def insertCell (refs : List Number) (index : Number) (i j k : Int) (nativeArea : α) :
    Attempt (Mesh α) (Cell α) := do
  (← get).checkVertices refs
  let index ← index.toInt
  let refs ← (refs.mapM Number.toInt : Except Error (List Int))
  onCells (Roster.insert { refs, index, i, j, k, nativeArea })

/-- Keep the cells that pass a test, and their vertices (`Grid.filter_cells`). -/
def retain (test : Cell α → Except Error Bool) : Attempt (Mesh α) Unit := do
  let (m, result) := (← get).filterCells test
  set m
  result

/-- The mesh with a new setting. -/
def assign (m : Mesh α) : MeshSetting → Mesh α
  | .name name => { m with name }
  | .kind kind => { m with kind }
  | .coordinates coordinates => { m with coordinates }
  | .parameterization parameterization => { m with parameterization }
  | .projection projection => { m with projection }

end Mesh

/-- One call that changes a mesh. -/
inductive MeshCall (α : Type) where
  | insertVertex (x y : α) (index : Number)
  | insertCell (refs : List Number) (index : Number) (i j k : Int) (nativeArea : α)
  | removeVertex (index : Int)
  | removeCell (index : Int)
  | fixVertices (size : Number)
  | fixCells (size : Number)
  | retain (test : Cell α → Except Error Bool)
  | clear
  | assign (setting : MeshSetting)

namespace MeshCall

variable {α : Type}

/-- What a call does. -/
def run : MeshCall α → Attempt (Mesh α) Unit
  | insertVertex x y index => discard (Mesh.insertVertex x y index)
  | insertCell refs index i j k nativeArea =>
    discard (Mesh.insertCell refs index i j k nativeArea)
  | removeVertex index => discard (Mesh.onVertices (Roster.remove index))
  | removeCell index => discard (Mesh.onCells (Roster.remove index))
  | fixVertices size => Mesh.onVertices (Roster.fix size)
  | fixCells size => Mesh.onCells (Roster.fix size)
  | retain test => Mesh.retain test
  | clear => modify Mesh.clear
  | assign setting => modify fun m => m.assign setting

/-- The mesh after many calls. One that fails does not keep the next ones from being made. -/
def runAll (calls : List (MeshCall α)) (m : Mesh α) : Mesh α :=
  calls.foldl (fun m call => call.run.after m) m

end MeshCall

end Regrid

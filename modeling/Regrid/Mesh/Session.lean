import Regrid.Mesh.Call
import Regrid.Mesh.Restore

/-!
# Working with a mesh

Whoever works with a mesh makes calls on it, asks for its sizes, looks at it, writes it and reads a
stored one in its place. `MeshRequest` lists what can be asked for, and an answer is all that is
told about the mesh behind it. A ticket or a dataset is given with the request, so what was answered
before can be used in it.

Model of the public interface of `Grid`, with `define_grid`, `GridWriteTicket.write` and
`grid_from_dataset`.
-/

namespace Regrid

/-- What is to be seen of a mesh: its settings, the sizes of its numberings, the identifiers in the
order in which they came, and vertices and cells by ascending identifier. -/
structure MeshView (α : Type) where
  name : String
  kind : MeshKind
  coordinates : CoordinateSystem
  parameterization : Parameterization
  projection : Option String
  fullVertices : Int
  fullCells : Int
  vertexKeys : List Int
  cellKeys : List Int
  vertices : List (Vertex α)
  cells : List (Cell α)

/-- What a request is answered with. -/
inductive MeshAnswer where
  | done
  | vertex (v : Vertex Float)
  | cell (c : Cell Float)
  | sizes (vertices cells : Int)
  | fieldSize (n : Int)
  | view (v : MeshView Float)
  | text (s : String)
  | declared (t : Ticket)
  | written (ds : Dataset)

/-- What can be asked of a mesh. -/
inductive MeshRequest where
  | change (call : MeshCall Float)
  /-- The sizes of both numberings. -/
  | sizes
  /-- The dimension of the fields. -/
  | fieldSize
  | view
  | text
  /-- Declare the mesh for writing. -/
  | declare (name : Option String)
  /-- Write the mesh that was declared to a dataset. -/
  | write (ticket : Ticket) (into : Dataset)
  /-- Read a stored mesh in place of this one. -/
  | read (ds : Dataset) (name : Option String)

/-- All that can be seen of a mesh. -/
def Mesh.view {α : Type} (m : Mesh α) : MeshView α where
  name := m.name
  kind := m.kind
  coordinates := m.coordinates
  parameterization := m.parameterization
  projection := m.projection
  fullVertices := m.vertices.full
  fullCells := m.cells.full
  vertexKeys := m.vertices.keys
  cellKeys := m.cells.keys
  vertices := m.vertices.sorted
  cells := m.cells.sorted

/-- A call with what it tells: an entity that was taken, as it was taken, or that was removed. -/
def MeshCall.tell : MeshCall Float → Attempt (Mesh Float) MeshAnswer
  | insertVertex x y index => return .vertex (← Mesh.insertVertex x y index)
  | insertCell refs index i j k nativeArea =>
    return .cell (← Mesh.insertCell refs index i j k nativeArea)
  | removeVertex index => return .vertex (← Mesh.onVertices (Roster.remove index))
  | removeCell index => return .cell (← Mesh.onCells (Roster.remove index))
  | call => do
    call.run
    return .done

namespace MeshRequest

/-- What a request does. -/
def run : MeshRequest → Attempt (Mesh Float) MeshAnswer
  | change call => call.tell
  | sizes => do
    let m ← get
    return .sizes m.vertices.full m.cells.full
  | fieldSize => return .fieldSize (← get).fieldSize
  | view => return .view (← get).view
  | text => return .text (← get).text
  | declare name => return .declared (← Ticket.define (← get) name)
  | write ticket into => return .written (← ticket.write (← get) into)
  | read ds name => do
    set (← Mesh.ofDataset ds name)
    return .done

/-- The answers to many requests. One that fails does not keep the next ones from being made. -/
def answers : List MeshRequest → Mesh Float → List (Except Error MeshAnswer)
  | [], _ => []
  | q :: qs, m => q.run.resultOn m :: answers qs (q.run.after m)

end MeshRequest

end Regrid

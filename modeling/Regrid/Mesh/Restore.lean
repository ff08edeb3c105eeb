import Regrid.Mesh.Store
import Regrid.Range

/-!
# Reading a mesh

`Mesh.ofDataset` reads what `Mesh.toDataset` writes, and refuses a store whose shapes, offsets or
references do not fit together. A store that holds one mesh only can be read without its name.

Model of `grid_from_dataset`, with `_find_grid_vname`, which is `onlyMeshName`.
-/

namespace Regrid

/-- A variable of a stored mesh. -/
def storedVariable (ds : Dataset) (name : String) : Except Error Variable :=
  match ds.get? name with
  | some v => .ok v
  | none => .error (.notFound (.text name) "dataset")

/-- The names of the meshes in a dataset. -/
def meshNames (ds : Dataset) : List String :=
  ds.all.filterMap fun (name, v) =>
    if name.endsWith ".info" && (v.attributes.get? cellsFullKey).isSome then
      some (name.dropEnd 5).toString
    else none

/-- The name of the only mesh in a dataset (`_find_grid_vname`). -/
def onlyMeshName (ds : Dataset) : Except Error String :=
  match meshNames ds with
  | [] => .error (.notFound (.text "*.info") "dataset")
  | [name] => .ok name
  | names => .error (.refused (.severalGrids (names.mergeSort fun a b => a ≤ b)))

/-- Refuses a variable of another shape. -/
def checkShape (v : Variable) (name : String) (expected : List Nat) : Except Error Unit :=
  if v.values.shape = expected then .ok ()
  else .error (.dimensionMismatch (name ++ " has wrong shape") (.shape expected)
    (.shape v.values.shape))

/-- The extent of the first axis of a variable. -/
def Variable.length (v : Variable) : Except Error Nat :=
  v.values.shape.head?.elim (.error .badType) .ok

/-- The value at a position, which exists. -/
def Variable.valueAt (v : Variable) (i : Nat) : Number := v.values.values.getD i 0

/-- The numbers of a vector; a vector of vectors has none. -/
def Variable.vector (v : Variable) : Except Error (List Number) :=
  match v.values.shape with
  | [_] => .ok v.values.values.toList
  | n :: _ => if n = 0 then .ok [] else .error .badType
  | [] => .error .badType

/-- Whether an offset is below the one before it. The difference of whole offsets is taken in 64
bits, as they are stored, so it wraps around. -/
def decreases : Number → Number → Bool
  | .whole a, .whole b => (b - a).bmod (Decimal.twoTo 64) < 0
  | a, b => b.toFloat - a.toFloat < 0.0

/-- Whether offsets begin at zero, end at `total` and never decrease. -/
def validOffsets (offsets : List Number) (total : Nat) : Bool :=
  (offsets.head?.elim false fun x => x.toRat? == some 0)
    && (offsets.getLast?.elim false fun x => x.toRat? == some (total : Rat))
    && (offsets.zip (offsets.drop 1)).all fun (a, b) => !decreases a b

/-- Refuses offsets that are none. -/
def checkOffsets (offsets : List Number) (total : Nat) (name : String) : Except Error Unit :=
  if validOffsets offsets total then .ok ()
  else
    let shown := fun (x : Option Number) => x.elim "" Number.text
    .error (.dimensionMismatch (name ++ " is not a valid offset array")
      (.text ("0.." ++ toString total ++ " non-decreasing"))
      (.text (shown offsets.head? ++ ".." ++ shown offsets.getLast?)))

namespace Mesh

/-- The mesh of stored settings, still without vertices and cells. -/
def ofInfo (info : Attributes) (store : String) : Except Error (Mesh Float) := do
  let version ← ((info.get? "version").getD (.int (-1))).toInt
  unless version = storeVersion do
    throw (.unsupportedVersion (.int version) (.int storeVersion))
  let coordinates ← Coded.ofCode (σ := CoordinateSystem) (← (← info.get "coordinates").toInt)
  let projection :=
    match coordinates, info.get? "projection" with
    | .plane, some d => if d.isTrue then some d.plain else none
    | _, _ => none
  let kind ← Coded.ofCode (← (← info.get "type").toInt)
  let parameterization ← Coded.ofCode (← (← info.get "parameterization").toInt)
  let name := ((info.get? "name").getD (.text store)).plain
  return { name, kind, coordinates, parameterization, projection }

/-- Add a stored vertex. -/
def addStoredVertex (m : Mesh Float) (index : Number) (x y : Float) :
    Except Error (Mesh Float) := do
  return (← m.addVertex ⟨x, y, ← index.toInt⟩).1

/-- Add a stored cell whose vertices are there. -/
def addStoredCell (m : Mesh Float) (refs : List Number) (index i j k : Number)
    (nativeArea : Float) : Except Error (Mesh Float) := do
  let index ← index.toInt
  let i ← i.toInt
  let j ← j.toInt
  let k ← k.toInt
  match m.missingVertex? refs with
  | some r => throw (.notFound (.stored r) m.vertexPlace)
  | none => return (← m.addCell { refs := ← refs.mapM Number.toInt, index, i, j, k, nativeArea }).1

/-- Read the vertices of a stored mesh. -/
def readVertices (m : Mesh Float) (ds : Dataset) (n : StoreNames) : Except Error (Mesh Float) := do
  let index ← storedVariable ds n.vertexIndex
  let points ← storedVariable ds n.vertexPoints
  checkShape points n.vertexPoints [← index.length, 2]
  (← index.vector).zipIdx.foldlM (fun m (id, i) =>
    m.addStoredVertex id (points.valueAt (2 * i)).toFloat (points.valueAt (2 * i + 1)).toFloat) m

/-- Read the cells of a stored mesh. -/
def readCells (m : Mesh Float) (ds : Dataset) (n : StoreNames) : Except Error (Mesh Float) := do
  let index ← storedVariable ds n.cellIndex
  let count ← index.length
  let ijk ← storedVariable ds n.cellCoordinates
  let areas ← storedVariable ds n.cellAreas
  let refs ← storedVariable ds n.refs
  let starts ← storedVariable ds n.starts
  checkShape ijk n.cellCoordinates [count, 3]
  checkShape areas n.cellAreas [count]
  checkShape starts n.starts [count + 1]
  checkOffsets starts.values.values.toList (← refs.length) n.starts
  if 0 < count ∧ starts.values.values.any Number.isReal then throw .badType
  let ids ← index.vector
  let offsets ← starts.values.values.toList.mapM Number.toInt
  let vertices ← refs.vector
  (ids.zip (offsets.zip (offsets.drop 1))).zipIdx.foldlM
    (fun m ((id, start, stop), i) =>
      m.addStoredCell (partOf vertices start stop) id (ijk.valueAt (3 * i))
        (ijk.valueAt (3 * i + 1)) (ijk.valueAt (3 * i + 2)) (areas.valueAt i).toFloat) m

/-- The mesh stored under a name, or the only mesh of a dataset (`grid_from_dataset`). -/
def ofDataset (ds : Dataset) (name : Option String) : Except Error (Mesh Float) := do
  let store ← name.elim (onlyMeshName ds) .ok
  let n : StoreNames := ⟨store⟩
  let info := (← storedVariable ds n.info).attributes
  let m ← ofInfo info store
  let m ← m.readVertices ds n
  let m ← m.readCells ds n
  let cells ← ((info.get? cellsFullKey).getD (.int (-1))).toInt
  let vertices ← ((info.get? verticesFullKey).getD (.int (-1))).toInt
  return { m with cells := m.cells.setFull cells, vertices := m.vertices.setFull vertices }

end Mesh

end Regrid

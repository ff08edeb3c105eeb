import Regrid.Mesh.Call

/-!
# Keeping a part of a mesh in place

`Mesh.sweep` keeps the cells that pass a test by removing the others one by one, and collects on
its way the vertices that the kept ones name. It goes through the cells that were there when it
began, while they are removed. The vertices that were not collected are removed after that, in the
same way.

Model of `Grid.filter_cells`, statement by statement.
-/

namespace Regrid

variable {α : Type}

namespace Mesh

/-- Remove the cells of a list that a test refuses. The vertices of the others are told behind those
that are known already. -/
def sweepCells (test : Cell α → Except Error Bool) (named : List Int) :
    List (Cell α) → Attempt (Mesh α) (List Int)
  | [] => return named
  | c :: cs => do
    if ← test c then
      sweepCells test (named ++ c.refs) cs
    else
      discard (onCells (Roster.remove c.index))
      sweepCells test named cs

/-- Remove the vertices of a list that are not named. -/
def sweepVertices (named : List Int) : List (Vertex α) → Attempt (Mesh α) Unit
  | [] => return ()
  | v :: vs => do
    if !named.contains v.index then
      discard (onVertices (Roster.remove v.index))
    sweepVertices named vs

/-- Keep the cells that pass a test, and their vertices (`Grid.filter_cells`). -/
def sweep (test : Cell α → Except Error Bool) : Attempt (Mesh α) Unit := do
  onCells (modify Roster.freeze)
  onVertices (modify Roster.freeze)
  let named ← sweepCells test [] (← get).cells.items
  onCells (modify Roster.recount)
  sweepVertices named (← get).vertices.items
  onVertices (modify Roster.recount)

/-- Keep the cells that pass a test that never fails, and their vertices. -/
def keep (p : Cell α → Bool) : Attempt (Mesh α) Unit := retain fun c => .ok (p c)

end Mesh

end Regrid

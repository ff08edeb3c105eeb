import Regrid.Packing.Basic
import Regrid.Sparse.Basic

/-!
# Packing a matrix

A matrix between full spaces becomes one between packed spaces: each entry moves to the packed
indices of its row and column. An entry at an unused identifier is refused or, on request, dropped.

Model of `pack_matrix`.
-/

namespace Regrid

variable {α : Type}

/-- Refuses a packing whose full space is not an axis of the matrix. -/
def Packing.checkAxis (space : Option Packing) (extent axis : Nat) : Except Error Unit :=
  match space with
  | some p =>
    if p.full = extent then .ok ()
    else .error (.dimensionMismatch
      (p.name ++ " does not match matrix axis " ++ toString axis) (.int extent) (.int p.full))
  | none => .ok ()

/-- Whether an index stays: every index does where there is no packing. -/
def Packing.keeps (space : Option Packing) (i : Nat) : Bool :=
  space.all fun p => p.ids.contains i

/-- The packed indices of an axis. -/
def Packing.renumber (space : Option Packing) (indices : List Nat) : Except Error (List Nat) :=
  match space with
  | some p => do
    let places ← p.toPackedAll (Tensor.ofArray (indices.map fun i : Nat => (i : Int)).toArray)
    return places.values.toList
  | none => .ok indices

/-- The extent of an axis behind a packing. -/
def Packing.packedExtent (space : Option Packing) (extent : Nat) : Nat :=
  space.elim extent Packing.size

/-- The matrix in packed rows and columns; an axis without a packing stays as it is
(`pack_matrix`). -/
def SparseMatrix.pack (m : SparseMatrix α) (rowSpace colSpace : Option Packing)
    (dropUnused : Bool) : Except Error (SparseMatrix α) := do
  Packing.checkAxis rowSpace m.rows 0
  Packing.checkAxis colSpace m.cols 1
  let kept :=
    if dropUnused then
      m.entries.filter fun e => Packing.keeps rowSpace e.row && Packing.keeps colSpace e.col
    else m.entries
  let rows ← Packing.renumber rowSpace (kept.map Entry.row)
  let cols ← Packing.renumber colSpace (kept.map Entry.col)
  let values := kept.map Entry.value
  return {
    rows := Packing.packedExtent rowSpace m.rows
    cols := Packing.packedExtent colSpace m.cols
    entries := (rows.zip (cols.zip values)).map fun (r, c, v) => ⟨r, c, v⟩ }

end Regrid

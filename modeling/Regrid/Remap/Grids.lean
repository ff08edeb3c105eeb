import Regrid.LatLon.Grid
import Regrid.Remap.Average
import Regrid.Remap.Blocks

/-!
# Remapping between two grids

A pair of grids, remapped by the lattices they describe. Their radii do not matter to a remap, which
moves fractions of cells.

Model of `Hntr` on two `HntrGrid`s, and of `Hntr.check_conservation`.
-/

namespace Regrid

/-- A source and a target grid (`Hntr`). -/
structure GridPair (α : Type) where
  source : LatLon α
  target : LatLon α

namespace GridPair

variable {α : Type} [Trigonometry α]

/-- The remap between the lattices of the grids. -/
def remap (p : GridPair α) : Remap α := ⟨p.source.lattice, p.target.lattice⟩

/-- The text of a pair of grids. -/
def text (p : GridPair Float) : String :=
  "Hntr(Agrid=" ++ p.source.text ++ ", Bgrid=" ++ p.target.text ++ ")"

/-- The rows of an operator of unit weights, among those of the mask, that do not sum to one
(`Hntr.check_conservation`). -/
def conservationFaults (m : SparseMatrix α) (tolerance : α)
    (mask : Option (Tensor Bool)) : Except Error (List (Nat × α)) :=
  m.checkRowSums (Tensor.scalar 1) tolerance mask

end GridPair

end Regrid

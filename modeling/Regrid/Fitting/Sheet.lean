import Regrid.Packing.Grouped
import Regrid.Packing.Matrix

/-!
# Sheets

A sheet is one fine grid that takes part in a fit, with a field on it and two operators: the
overlaps of its cells with the coarse cells, and the interpolation of the basis functions at its
cells. The fine cells of all sheets are numbered together, so the operators of one sheet are
blocks of larger ones.

Model of `SheetOperators` and `_pack_sheet_matrix`.
-/

namespace Regrid

/-- A fine grid with its operators and its field (`SheetOperators`). -/
structure Sheet (α : Type) where
  /-- Fine to coarse: the area that a coarse cell, the row, shares with a fine one. -/
  overlaps : SparseMatrix α
  /-- Basis to fine: the value of a basis function, the column, at a fine cell. -/
  interpolation : SparseMatrix α
  field : Tensor α
  /-- The area of every coarse cell that the sheet covers, where it is not the sum of the
  overlaps. -/
  areas : Option (Tensor α)

namespace Sheet

variable {α : Type}

/-- Refuses a sheet whose operators and field do not fit to each other or to the constraints,
which have a row for every coarse cell and a column for every basis function. -/
def check (s : Sheet α) (id : GroupId) (coarse basis : Nat) : Except Error Unit := do
  let subject := fun (part fault : String) =>
    part ++ " of sheet " ++ id.datum.quoted ++ " " ++ fault
  let fine := s.overlaps.cols
  unless s.overlaps.rows = coarse do
    throw (.dimensionMismatch (subject "S" "does not match RM rows") (.int coarse)
      (.int s.overlaps.rows))
  unless s.interpolation.rows = fine ∧ s.interpolation.cols = basis do
    throw (.dimensionMismatch (subject "XM" "has wrong shape") (.shape [fine, basis])
      s.interpolation.shape)
  unless s.field.shape = [fine] do
    throw (.dimensionMismatch (subject "f2" "has wrong shape") (.shape [fine])
      (.shape s.field.shape))

/-- The fine cells that an operator of the sheet touches. -/
def usedCells (s : Sheet α) : List Nat :=
  s.overlaps.entries.map Entry.col ++ s.interpolation.entries.map Entry.row

/-- The area of every coarse cell that the sheet covers. -/
def coveredAreas [Scalar α] (s : Sheet α) : Except Error (Array α) :=
  match s.areas with
  | some a => a.spread s.overlaps.rows
  | none => .ok s.overlaps.rowSums.values

/-- The block of a sheet in the overlaps of all fine cells (`_pack_sheet_matrix`). Coarse cells
without a packed index are left out. -/
def overlapBlock (s : Sheet α) (id : GroupId) (coarse : Packing) (fine : GroupPacking) :
    Except Error (List (Entry α)) := do
  let cells ← fine.groupPacking id
  let (first, _) ← fine.range id
  let packed ← s.overlaps.pack (some coarse) (some cells) true
  return packed.entries.map fun e => { e with col := e.col + first }

/-- The block of a sheet in the interpolation at all fine cells (`_pack_sheet_matrix`). -/
def interpolationBlock (s : Sheet α) (id : GroupId) (fine : GroupPacking) (basis : Packing) :
    Except Error (List (Entry α)) := do
  let cells ← fine.groupPacking id
  let (first, _) ← fine.range id
  let packed ← s.interpolation.pack (some cells) (some basis) false
  return packed.entries.map fun e => { e with row := e.row + first }

end Sheet

end Regrid

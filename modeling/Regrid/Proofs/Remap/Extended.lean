import Regrid.Proofs.Remap.Operator
import Regrid.Proofs.Sparse.Extended

/-!
# Overlaps of lattices of numbers

Among values that need not be finite, lattices of numbers have the overlaps that they have among the
rationals (`overlaps_extended`): the sweeps only divide by the widths of columns, which are not
zero. So they have the same operators, in which overlaps are divided by bands that are not empty
(`operator_extended`).
-/

namespace Regrid

open Extended (number)

/-- The seam among extended values. -/
def Seam.extended (s : Seam Rat) : Seam Extended :=
  ⟨s.left, number s.beyond, s.right, number s.before⟩

/-- The span among extended values. -/
def Span.extended (s : Span Rat) : Span Extended :=
  ⟨s.first, s.last, number s.cutFirst, number s.cutLast⟩

/-- The overlap among extended values. -/
def Overlap.extended (o : Overlap Rat) : Overlap Extended := ⟨o.target, o.source, number o.amount⟩

/-- The cursor among extended values. -/
def ColumnCursor.extended (c : ColumnCursor Rat) : ColumnCursor Extended := ⟨c.cell, number c.edge⟩

/-- The lattice among extended values. -/
def Lattice.extended (l : Lattice Rat) : Lattice Extended :=
  ⟨l.columns, number l.offset, l.edges.map number⟩

/-- The pair of lattices among extended values. -/
def Remap.extended (r : Remap Rat) : Remap Extended := ⟨r.source.extended, r.target.extended⟩

/-! ## Around the circle -/

namespace ColumnCursor

theorem advance_extended (width position : Rat) (n : Nat) (c : ColumnCursor Rat) :
    c.extended.advance (number width) (number position) n =
      (c.advance width position n).extended := by
  induction n generalizing c with
  | zero => rfl
  | succ n ih =>
    have hlt : c.extended.edge < number position ↔ c.edge < position := Extended.number_lt
    unfold advance
    by_cases h : c.edge < position
    · rw [if_pos h, if_pos (hlt.mpr h)]
      exact ih ⟨c.cell + 1, c.edge + width⟩
    · rw [if_neg h, if_neg (mt hlt.mp h)]

theorem stepsTo_extended {width : Rat} (hw : width ≠ 0) (position : Rat) (c : ColumnCursor Rat) :
    c.extended.stepsTo (number width) (number position) = c.stepsTo width position := by
  unfold stepsTo extended
  simp only [Extended.number_sub, Extended.number_div hw, Extended.number_ceil]

theorem seam_extended {width : Rat} (hw : width ≠ 0) (position : Rat) (c : ColumnCursor Rat) :
    c.extended.seam (number width) (number position) =
      ((c.seam width position).1.extended, (c.seam width position).2.extended) := by
  unfold seam
  simp only [stepsTo_extended hw, advance_extended]
  generalize c.advance width position (c.stepsTo width position) = d
  have hedge : (d.extended.edge == number position) = (d.edge == position) := Extended.number_beq
  rw [hedge]
  by_cases h : (d.edge == position) = true
  · rw [if_pos h, if_pos h]
    rfl
  · rw [if_neg h, if_neg h]
    simp only [extended, Seam.extended, Extended.number_sub, Extended.number_div hw,
      Extended.number_one]

theorem sweep_extended {width : Rat} (hw : width ≠ 0) : ∀ (ps : List Rat) (c : ColumnCursor Rat),
    c.extended.sweep (number width) (ps.map number) = (c.sweep width ps).map Seam.extended
  | [], _ => rfl
  | p :: ps, c => by
    have hrest := sweep_extended hw ps (c.seam width p).2
    rw [List.map_cons, sweep, seam_extended hw, sweep, List.map_cons, ← hrest]

end ColumnCursor

/-! ## From pole to pole -/

namespace Lattice

variable (l : Lattice Rat)

theorem rows_extended : l.extended.rows = l.rows := by
  unfold rows extended
  rw [Array.size_map]

theorem size_extended : l.extended.size = l.size := by
  unfold size
  rw [rows_extended]
  rfl

theorem edge_extended (j : Nat) : l.extended.edge j = number (l.edge j) := by
  unfold edge extended
  simp only [Array.getD_eq_getD_getElem?, Array.getElem?_map]
  cases l.edges[j]? <;> rfl

theorem band_extended (j : Nat) : l.extended.band j = number (l.band j) := by
  unfold band
  rw [edge_extended, edge_extended, Extended.number_sub]

theorem bandAt_extended (sine : Rat) (n j : Nat) :
    l.extended.bandAt (number sine) n j = l.bandAt sine n j := by
  induction n generalizing j with
  | zero => rfl
  | succ n ih =>
    unfold bandAt
    simp only [edge_extended, Extended.number_lt, ih]

theorem bandSeam_extended (sine : Rat) (j : Nat) : l.extended.bandSeam (number sine) j =
    ((l.bandSeam sine j).1.extended, (l.bandSeam sine j).2) := by
  unfold bandSeam
  simp only [rows_extended, bandAt_extended, edge_extended, Extended.number_beq]
  split
  · rfl
  · simp only [Seam.extended, Extended.number_sub]

theorem bandSweep_extended : ∀ (ps : List Rat) (j : Nat),
    l.extended.bandSweep j (ps.map number) = (l.bandSweep j ps).map Seam.extended
  | [], _ => rfl
  | p :: ps, j => by
    have hrest := bandSweep_extended ps (l.bandSeam p j).2
    rw [List.map_cons, bandSweep, bandSeam_extended, bandSweep, List.map_cons, ← hrest]

end Lattice

/-! ## Spans -/

theorem Span.ofSeams_extended (seams : List (Seam Rat)) :
    Span.ofSeams (seams.map Seam.extended) = (Span.ofSeams seams).map Span.extended := by
  unfold Span.ofSeams
  rw [← List.map_tail, List.zipWith_map, List.map_zipWith]
  rfl

theorem Span.share_extended (s : Span Rat) (cell : Int) (whole : Rat) :
    s.extended.share cell (number whole) = number (s.share cell whole) := by
  unfold Span.share Span.extended
  split_ifs <;> simp only [Extended.number_sub]

namespace Remap

variable (r : Remap Rat)

theorem bandSpans_extended : r.extended.bandSpans = r.bandSpans.map Span.extended := by
  unfold bandSpans
  rw [← Span.ofSeams_extended]
  unfold bandSeams extended
  simp only [Lattice.rows_extended, Lattice.edge_extended]
  rw [List.map_append, List.map_cons, ← Lattice.bandSweep_extended, List.map_map]
  rfl

section

variable (hn : 0 < r.target.columns)
include hn

theorem columnSeams_extended : r.extended.columnSeams = r.columnSeams.map Seam.extended := by
  have hwidth : (r.target.columns : Rat) ≠ 0 := by exact_mod_cast hn.ne'
  have hstart : ((1 + r.extended.source.offset - Scalar.ofNat r.extended.source.columns)
      * Scalar.ofNat r.extended.target.columns : Extended) =
        number ((1 + r.source.offset - r.source.columns) * r.target.columns) := by
    rw [Extended.number_one, Extended.number_ofNat, Extended.number_ofNat]
    show (number 1 + number r.source.offset - number r.source.columns)
      * number r.target.columns = _
    rw [Extended.number_add, Extended.number_sub, Extended.number_mul]
  have hedges : ((List.range r.extended.target.columns).map fun k =>
      (Scalar.ofNat k + r.extended.target.offset : Extended)
        * Scalar.ofNat r.extended.source.columns) = r.columnEdges.map number := by
    rw [columnEdges, List.map_map]
    rfl
  unfold columnSeams
  simp only
  rw [hstart, hedges]
  exact ColumnCursor.sweep_extended hwidth r.columnEdges r.startCursor

theorem columnSpans_extended : r.extended.columnSpans = r.columnSpans.map Span.extended := by
  unfold columnSpans
  rw [r.columnSeams_extended hn]
  cases r.columnSeams with
  | nil => rfl
  | cons s ss =>
    rw [List.map_cons]
    simp only
    rw [← Span.ofSeams_extended, List.map_append, List.map_cons]
    rfl

end

/-! ## Overlaps -/

/-- Overlaps of spans; `cell` says what a cell of a span is, and `whole` what all of it counts. -/
theorem spanOverlaps_extended (spans : List (Span Rat)) (cell : Int → Nat) (whole : Int → Rat) :
    ((spans.map Span.extended).zipIdx.flatMap fun (s, j) =>
      (s.cells.map fun i => (⟨j, cell i, s.share i (number (whole i))⟩ : Overlap Extended)).filter
        fun o => o.amount != 0) = (spanOverlaps spans cell whole).map Overlap.extended := by
  unfold spanOverlaps
  rw [List.zipIdx_map, List.flatMap_map, List.map_flatMap]
  refine List.flatMap_congr fun ⟨s, j⟩ _ => ?_
  have hcells : (s.extended.cells.map fun i =>
      (⟨j, cell i, s.extended.share i (number (whole i))⟩ : Overlap Extended)) =
      (s.cells.map fun i => (⟨j, cell i, s.share i (whole i)⟩ : Overlap Rat)).map
        Overlap.extended := by
    simp only [Span.share_extended, List.map_map]
    rfl
  have hkept : ∀ o : Overlap Rat, (o.extended.amount != 0) = (o.amount != 0) := fun _ =>
    Extended.number_bne
  simp only [Prod.map, id, hcells, List.filter_map, Function.comp_def, hkept]

theorem bandOverlaps_extended : r.extended.bandOverlaps = r.bandOverlaps.map Overlap.extended := by
  rw [bandOverlaps_eq, ← spanOverlaps_extended, ← bandSpans_extended]
  unfold bandOverlaps extended
  simp only [Lattice.band_extended]

theorem columnOverlaps_extended (hn : 0 < r.target.columns) :
    r.extended.columnOverlaps = r.columnOverlaps.map Overlap.extended := by
  rw [columnOverlaps_eq, ← spanOverlaps_extended, ← columnSpans_extended r hn]
  rfl

/-- **Overlaps among extended values** are those of the rationals. -/
theorem overlaps_extended (hn : 0 < r.target.columns) (rows : Option (Int × Int)) :
    r.extended.overlaps rows = (r.overlaps rows).map Overlap.extended := by
  unfold overlaps cellOverlaps
  rw [bandOverlaps_extended, columnOverlaps_extended r hn, List.filter_map, List.flatMap_map,
    List.map_flatMap]
  refine List.flatMap_congr fun b _ => ?_
  rw [List.map_map, List.map_map]
  rfl

/-! ## Operators -/

section Operators

variable {r} (hs : r.source.Partition) (ht : r.target.Partition)
include hs ht

theorem entryOf_extended (weights : Array Rat) {o : Overlap Rat} (ho : o.target < r.target.size) :
    r.extended.entryOf (weights.map number) o.extended = (r.entryOf weights o).extended := by
  have hm : (r.source.columns : Rat) ≠ 0 := by exact_mod_cast hs.columns_pos.ne'
  have hband := ht.band_cell_ne_zero ho
  unfold entryOf Entry.extended
  simp only [Extended.number_ofNat]
  show Entry.mk _ _ ((weights.map number).getD o.target 0 * number o.amount
    * (number r.target.columns / number r.source.columns)
      / r.target.extended.band (o.target / r.target.columns)) = _
  rw [Extended.getD_number, Lattice.band_extended, Extended.number_mul, Extended.number_div hm,
    Extended.number_mul, Extended.number_div hband]
  rfl

/-- **Operators among extended values** are those of the rationals. -/
theorem operator_extended (weights : Array Rat) :
    r.extended.operator (weights.map number) none = (r.operator weights none).extended := by
  have hentries : (r.extended.overlaps none).map (r.extended.entryOf (weights.map number)) =
      ((r.overlaps none).map (r.entryOf weights)).map Entry.extended := by
    rw [r.overlaps_extended ht.columns_pos, List.map_map, List.map_map]
    exact List.map_congr_left fun o ho => entryOf_extended hs ht weights (mem_overlaps hs ht ho).1
  have htarget : r.extended.target.size = r.target.size := r.target.size_extended
  have hsource : r.extended.source.size = r.source.size := r.source.size_extended
  unfold operator SparseMatrix.extended
  rw [hentries, htarget, hsource]

theorem unitOperator_extended : r.extended.unitOperator = r.unitOperator.extended := by
  have hweights : r.extended.unitWeights = r.unitWeights.map number := by
    unfold unitWeights
    rw [Array.map_replicate]
    exact congrArg (fun n => Array.replicate n 1) r.target.size_extended
  unfold unitOperator
  rw [hweights]
  exact operator_extended hs ht r.unitWeights

end Operators

end Remap

end Regrid

import Regrid.Proofs.Remap.Bands
import Regrid.Proofs.Remap.Columns
import Regrid.Proofs.Remap.Request
import Regrid.Proofs.Sparse.Dense

/-!
# The dense matrix of a remap

A cell overlap is the product of a band overlap and a column overlap, so the element of a target and
a source cell is a product of totals (`dense_operator`). `build_eq` says that building an operator
from weights of the right size gives that operator, with nothing to report.
-/

namespace Regrid

/-- The total of products of overlaps is the product of the totals. -/
theorem total_product {n m : Nat} (bs cs : List (Overlap Rat))
    (hcs : ∀ o ∈ cs, o.target < n ∧ o.source < m) {j i k l : Nat} (hi : i < n) (hl : l < m) :
    Overlap.total (bs.flatMap fun b => cs.map fun c =>
        ⟨b.target * n + c.target, b.source * m + c.source, b.amount * c.amount⟩)
      (j * n + i) (k * m + l) = Overlap.total bs j k * Overlap.total cs i l := by
  unfold Overlap.total
  rw [sum_map_flatMap, ← List.sum_map_mul_right]
  refine congrArg List.sum (List.map_congr_left fun b _ => ?_)
  rw [List.map_map, ← List.sum_map_mul_left]
  refine congrArg List.sum (List.map_congr_left fun c hc => ?_)
  obtain ⟨ht, hs⟩ := hcs c hc
  simp only [Function.comp, Lattice.cell_eq_iff ht hi, Lattice.cell_eq_iff hs hl]
  by_cases hb : b.target = j ∧ b.source = k
  · by_cases hc : c.target = i ∧ c.source = l
    · rw [if_pos ⟨⟨hb.1, hc.1⟩, hb.2, hc.2⟩, if_pos hb, if_pos hc]
    · rw [if_neg (fun h => hc ⟨h.1.2, h.2.2⟩), if_neg hc, mul_zero]
  · rw [if_neg (fun h => hb ⟨h.1.1, h.2.1⟩), if_neg hb, zero_mul]

namespace Remap

variable {r : Remap Rat}

/-- An element of the operator adds up the overlaps of its cells. -/
theorem dense_operator_total (r : Remap Rat) (weights : Array Rat) (rows : Option (Int × Int))
    (b a : Nat) :
    (r.operator weights rows).dense b a =
      weights.getD b 0 * (r.target.columns / r.source.columns)
        / r.target.band (b / r.target.columns) * Overlap.total (r.overlaps rows) b a := by
  have hfactor : ∀ w q d t : Rat, w * t * q / d = w * q / d * t := fun w q d t => by ring
  rw [SparseMatrix.dense_eq, operator, List.map_map, Overlap.total, ← List.sum_map_mul_left]
  refine congrArg List.sum (List.map_congr_left fun o _ => ?_)
  show (if o.target = b ∧ o.source = a then (r.entryOf weights o).value else 0) = _
  by_cases h : o.target = b ∧ o.source = a
  · rw [if_pos h, if_pos h, ← hfactor, ← h.1]
    rfl
  · rw [if_neg h, if_neg h, mul_zero]

variable (hs : r.source.Partition) (ht : r.target.Partition)
include hs ht

theorem mem_columnOverlaps {o : Overlap Rat} (ho : o ∈ r.columnOverlaps) :
    o.target < r.target.columns ∧ o.source < r.source.columns := by
  rw [columnOverlaps_eq, columnSpans_eq ht.columns_pos] at ho
  obtain ⟨h, c, -, hc, -⟩ := (columnRun hs.columns_pos ht.columns_pos).mem_overlaps
    (fun c _ => by push_cast; ring) ho
  exact ⟨h, hc ▸ foldColumn_lt hs.columns_pos c⟩

theorem mem_bandOverlaps {o : Overlap Rat} (ho : o ∈ r.bandOverlaps) :
    o.target < r.target.rows ∧ o.source < r.source.rows := by
  rw [bandOverlaps_eq, bandSpans_eq hs ht] at ho
  obtain ⟨h, c, hc, hk, -⟩ := (bandRun hs ht).mem_overlaps (fun c hc => band_eq_ruler hs ht hc) ho
  rw [bandRun_cells hs ht, Finset.mem_Icc] at hc
  exact ⟨h, by omega⟩

theorem mem_overlaps {o : Overlap Rat} (ho : o ∈ r.overlaps none) :
    o.target < r.target.size ∧ o.source < r.source.size := by
  obtain ⟨b, hb, c, hc, rfl⟩ := exists_of_mem_overlaps ho
  obtain ⟨hb1, hb2⟩ := mem_bandOverlaps hs ht hb
  obtain ⟨hc1, hc2⟩ := mem_columnOverlaps hs ht hc
  exact ⟨Lattice.cell_lt_size hb1 hc1, Lattice.cell_lt_size hb2 hc2⟩

theorem operator_inBounds (weights : Array Rat) : (r.operator weights none).InBounds := by
  intro e he
  simp only [operator, List.mem_map] at he
  obtain ⟨o, ho, rfl⟩ := he
  exact mem_overlaps hs ht ho

/-- **An element of the operator** is the weight of the target cell times the overlap of the bands
and of the columns, in parts of the target cell. -/
theorem dense_operator (weights : Array Rat) {j i k l : Nat} (hi : i < r.target.columns)
    (hl : l < r.source.columns) :
    (r.operator weights none).dense (j * r.target.columns + i) (k * r.source.columns + l) =
      weights.getD (j * r.target.columns + i) 0 * (r.target.columns / r.source.columns)
        / r.target.band j * (r.bandTotal j k * r.columnTotal i l) := by
  rw [dense_operator_total, Lattice.div_cell hi, overlaps_none, bandTotal, columnTotal,
    ← total_product r.bandOverlaps r.columnOverlaps (fun o ho => mem_columnOverlaps hs ht ho) hi hl]
  rfl

omit hs ht in
theorem getD_unitWeights {b : Nat} (hb : b < r.target.size) : r.unitWeights.getD b 0 = 1 := by
  rw [unitWeights, Array.getD_eq_getD_getElem?, Array.getElem?_replicate, if_pos hb,
    Option.getD_some]

omit hs in
/-- **Building from weights** gives the operator of the weights and reports nothing. -/
theorem build_weights {weights : Array Rat} (hw : weights.size = r.target.size) :
    r.build { weights := some weights } = .ok (r.operator weights none, []) := by
  refine build_rows ht.rows_pos (fun w hsome => ?_) none
  rwa [← Option.some.inj hsome]

omit hs in
/-- **Building from nothing** gives the operator of the unit weights. -/
theorem build_default : r.build {} = .ok (r.unitOperator, []) := by
  have hsize : r.unitWeights.size = r.target.size := Array.size_replicate ..
  exact build_weights ht hsize

end Remap

end Regrid

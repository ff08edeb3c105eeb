import Regrid.Proofs.Remap.Operator

/-!
# Conservation

Remapping keeps what there is of a quantity. The totals of bands and columns add up over the source
to the target cell (`sum_dense_sources`) and over the target to the source cell
(`sum_dense_targets`), so the rows of an operator (`Hntr.matrix`) sum to the weights, its columns
weighted with the target areas sum to the source areas, and a field has the same area integral after
remapping as before (`build_conserves`).

The offsets of the lattices play no part: a sweep that starts with the first edges west of it makes
cuts of negative length there, and they cancel.
-/

namespace Regrid

/-- A sum of products over all pairs is the product of the sums. -/
theorem sum_product (c : Rat) (m n : Nat) (f g : Nat → Rat) :
    ∑ k ∈ Finset.range m, ∑ l ∈ Finset.range n, c * (f k * g l) =
      c * ((∑ k ∈ Finset.range m, f k) * ∑ l ∈ Finset.range n, g l) := by
  rw [Finset.sum_mul_sum]
  simp only [Finset.mul_sum]

/-- The integral of a field over the area. -/
def Lattice.integral (l : Lattice Rat) (turn radius : Rat) (field : Array Rat) : Rat :=
  ∑ c ∈ Finset.range l.size, (l.cellAreas turn radius).getD c 0 * field.getD c 0

namespace Remap

variable {r : Remap Rat} (hs : r.source.Partition) (ht : r.target.Partition)
include hs ht

/-- **A row of an operator sums to the weight of its cell.** -/
theorem sum_dense_sources (weights : Array Rat) {b : Nat} (hb : b < r.target.size) :
    ∑ a ∈ Finset.range r.source.size, (r.operator weights none).dense b a = weights.getD b 0 := by
  obtain ⟨j, i, hj, hi, rfl⟩ := Lattice.exists_cell hb
  have hband : r.target.band j ≠ 0 := (ht.band_pos hj).ne'
  have hm : (r.source.columns : Rat) ≠ 0 := by exact_mod_cast hs.columns_pos.ne'
  have hn : (r.target.columns : Rat) ≠ 0 := by exact_mod_cast ht.columns_pos.ne'
  calc
    _ = ∑ k ∈ Finset.range r.source.rows, ∑ l ∈ Finset.range r.source.columns,
        weights.getD (j * r.target.columns + i) 0 * (r.target.columns / r.source.columns)
          / r.target.band j * (r.bandTotal j k * r.columnTotal i l) := by
      rw [Lattice.size, sum_range_mul]
      exact Finset.sum_congr rfl fun k _ => Finset.sum_congr rfl fun l hl =>
        dense_operator hs ht weights hi (Finset.mem_range.mp hl)
    _ = weights.getD (j * r.target.columns + i) 0 * (r.target.columns / r.source.columns)
          / r.target.band j * (r.target.band j * (r.source.columns / r.target.columns)) := by
      rw [sum_product, sum_bandTotal_sources hs ht hj,
        sum_columnTotal_sources hs.columns_pos ht.columns_pos hi]
    _ = weights.getD (j * r.target.columns + i) 0 := by
      field_simp

/-- **A column of the unit operator**, weighted with the target areas, sums to the source area. -/
theorem sum_dense_targets (turn radius : Rat) {a : Nat} (ha : a < r.source.size) :
    ∑ b ∈ Finset.range r.target.size,
        (r.target.cellAreas turn radius).getD b 0 * r.unitOperator.dense b a =
      (r.source.cellAreas turn radius).getD a 0 := by
  obtain ⟨k, l, hk, hl, rfl⟩ := Lattice.exists_cell ha
  rw [Lattice.getD_cellAreas _ _ hk hl]
  have hn : (r.target.columns : Rat) ≠ 0 := by exact_mod_cast ht.columns_pos.ne'
  calc
    _ = ∑ j ∈ Finset.range r.target.rows, ∑ i ∈ Finset.range r.target.columns,
        turn / r.source.columns * (radius * radius) * (r.bandTotal j k * r.columnTotal i l) := by
      rw [Lattice.size, sum_range_mul]
      refine Finset.sum_congr rfl fun j hj => Finset.sum_congr rfl fun i hi => ?_
      rw [Finset.mem_range] at hi hj
      have hband : r.target.band j ≠ 0 := (ht.band_pos hj).ne'
      rw [Lattice.getD_cellAreas _ _ hj hi, unitOperator, dense_operator hs ht _ hi hl,
        getD_unitWeights (Lattice.cell_lt_size hj hi), Lattice.rowArea_eq]
      field_simp
    _ = turn / r.source.columns * (radius * radius) * (r.source.band k * 1) := by
      rw [sum_product, sum_bandTotal_targets hs ht hk,
        sum_columnTotal_targets hs.columns_pos ht.columns_pos hl]
    _ = r.source.rowArea turn radius k := by
      rw [Lattice.rowArea_eq]
      ring

/-- The remapped field has the integral of the field. -/
theorem integral_unitOperator (turn radius : Rat) {field y : Array Rat}
    (hy : ∀ b, b < r.target.size →
      y.getD b 0 = r.unitOperator.mulVec (fun a => field.getD a 0) b) :
    r.target.integral turn radius y = r.source.integral turn radius field := by
  calc
    _ = ∑ b ∈ Finset.range r.target.size, ∑ a ∈ Finset.range r.source.size,
        (r.target.cellAreas turn radius).getD b 0 * r.unitOperator.dense b a * field.getD a 0 := by
      refine Finset.sum_congr rfl fun b hb => ?_
      rw [hy b (Finset.mem_range.mp hb), SparseMatrix.mulVec, Finset.mul_sum]
      exact Finset.sum_congr rfl fun a _ => (mul_assoc ..).symm
    _ = ∑ a ∈ Finset.range r.source.size, (∑ b ∈ Finset.range r.target.size,
        (r.target.cellAreas turn radius).getD b 0 * r.unitOperator.dense b a) * field.getD a 0 := by
      rw [Finset.sum_comm]
      exact Finset.sum_congr rfl fun a _ => (Finset.sum_mul ..).symm
    _ = r.source.integral turn radius field := by
      refine Finset.sum_congr rfl fun a ha => ?_
      rw [sum_dense_targets hs ht turn radius (Finset.mem_range.mp ha)]

/-- **Remapping conserves.** An operator can be built from all weights, and the entries of its rows
sum to them. The default operator takes every source cell apart into target cells without loss, and
so leaves the integral of every field as it is. -/
theorem build_conserves (turn radius : Rat) :
    (∀ weights : Array Rat, weights.size = r.target.size →
      ∃ m, r.build { weights := some weights } = .ok (m, []) ∧ m.InBounds ∧
        ∀ b, b < r.target.size →
          ((m.entries.filter fun e => e.row = b).map Entry.value).sum = weights.getD b 0) ∧
    ∃ u, r.build {} = .ok (u, []) ∧
      (∀ a, a < r.source.size →
        ∑ b ∈ Finset.range r.target.size,
            (r.target.cellAreas turn radius).getD b 0 * u.dense b a =
          (r.source.cellAreas turn radius).getD a 0) ∧
      ∀ field : Tensor Rat, field.shape = [r.source.size] →
        ∃ y, u.apply field false = .ok y ∧ y.values.size = r.target.size ∧
          r.target.integral turn radius y.values = r.source.integral turn radius field.values := by
  refine ⟨fun weights hw => ⟨_, build_weights ht hw, operator_inBounds hs ht weights,
    fun b hb => ?_⟩, _, build_default ht, fun a ha => sum_dense_targets hs ht turn radius ha,
    fun field hfield => ?_⟩
  · rw [SparseMatrix.sum_entries_row (operator_inBounds hs ht weights)]
    exact sum_dense_sources hs ht weights hb
  · obtain ⟨y, hy, hsize, hvalues⟩ :=
      SparseMatrix.apply_eq (operator_inBounds hs ht r.unitWeights) hfield
    exact ⟨y, hy, hsize, integral_unitOperator hs ht turn radius hvalues⟩

omit hs ht in
/-- Two bands and three, with an offset beyond the last column and one west of the date line. -/
theorem build_conserves_offsets :
    Lattice.Partition ⟨2, 7 / 2, #[-1, 0, 1]⟩ ∧ Lattice.Partition ⟨3, -1 / 4, #[-1, 1 / 2, 1]⟩ ∧
    ∃ u, Remap.build (α := Rat) ⟨⟨2, 7 / 2, #[-1, 0, 1]⟩, ⟨3, -1 / 4, #[-1, 1 / 2, 1]⟩⟩ {} =
        .ok (u, []) ∧
      ∀ field : Tensor Rat, field.shape = [4] → ∃ y, u.apply field false = .ok y ∧
        y.values.size = 6 ∧
        Lattice.integral ⟨3, -1 / 4, #[-1, 1 / 2, 1]⟩ 6 1 y.values =
          Lattice.integral ⟨2, 7 / 2, #[-1, 0, 1]⟩ 6 1 field.values := by
  have hs : Lattice.Partition ⟨2, 7 / 2, #[-1, 0, 1]⟩ :=
    ⟨by decide, by decide, rfl, rfl, by decide +kernel⟩
  have ht : Lattice.Partition ⟨3, -1 / 4, #[-1, 1 / 2, 1]⟩ :=
    ⟨by decide, by decide, rfl, rfl, by decide +kernel⟩
  obtain ⟨u, hu, -, hfield⟩ := (build_conserves (r := ⟨_, _⟩) hs ht 6 1).2
  exact ⟨hs, ht, u, hu, hfield⟩

end Remap

end Regrid

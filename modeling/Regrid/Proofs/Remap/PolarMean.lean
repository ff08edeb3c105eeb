import Regrid.Proofs.Field.Stack
import Regrid.Proofs.Remap.Average

/-!
# Averages with polar means

With polar means (`mean_polar`) every cell of the first and of the last row gets the mean of its
row. What is accumulated for a target cell is what it has of the weights and of the weighted values
by common area (`overlapSum`), but for a factor that is the same for all cells
(`accumulate_overlapSum`). So the mean of a row is the quotient of what the row has
(`getD_averages_rowMean`), just as the value of a cell is the quotient of what the cell has
(`getD_averages_overlapSum`).

A cell or row that has no weight has nothing of the weighted values. So multiplying a quotient by
its weight gives back what was divided (`mul_toRat_quotient`), whatever stands for a missing
value, and a row has the same weighted integral with and without polar means, also where its mean
fills a missing cell (`sum_row_polarMean`, `average_polarMean`).
-/

namespace Regrid.Remap

open Extended (number)

variable {r : Remap Rat} {turn radius : Rat}

/-! ## What cells and rows have of a field -/

/-- What a target cell has of a field on the source, by common area. -/
noncomputable def overlapSum (r : Remap Rat) (turn radius : Rat) (field : Array Rat) (b : Nat) :
    Rat :=
  ∑ a ∈ Finset.range r.source.size,
    r.target.commonArea r.source turn radius b a * field.getD a 0

/-- What a target row has of it. -/
noncomputable def rowOverlap (r : Remap Rat) (turn radius : Rat) (field : Array Rat) (j : Nat) :
    Rat :=
  ∑ i ∈ Finset.range r.target.columns, r.overlapSum turn radius field (j * r.target.columns + i)

section Weights

variable (hturn : 0 < turn) {weights : Array Rat} {values : Array Extended}
  (hnonneg : ∀ a, a < r.source.size → 0 ≤ weights.getD a 0)
include hturn

theorem commonArea_nonneg (b a : Nat) : 0 ≤ r.target.commonArea r.source turn radius b a :=
  mul_nonneg (mul_nonneg (mul_nonneg hturn.le (arcCommon_nonneg _ _ _ _)) (common_nonneg _ _ _ _))
    (mul_self_nonneg radius)

include hnonneg

theorem overlapSum_nonneg (b : Nat) : 0 ≤ r.overlapSum turn radius weights b :=
  Finset.sum_nonneg fun a ha =>
    mul_nonneg (commonArea_nonneg hturn b a) (hnonneg a (Finset.mem_range.mp ha))

/-- **A cell without weight** has nothing of the weighted values. -/
theorem overlapSum_weighted_eq_zero (hsize : values.size = weights.size) {b : Nat}
    (h : r.overlapSum turn radius weights b = 0) :
    r.overlapSum turn radius (weighted weights values) b = 0 := by
  have hterms := (Finset.sum_eq_zero_iff_of_nonneg fun a ha =>
    mul_nonneg (commonArea_nonneg hturn b a) (hnonneg a (Finset.mem_range.mp ha))).mp h
  refine Finset.sum_eq_zero fun a ha => ?_
  rw [getD_weighted hsize, ← mul_assoc, hterms a ha, zero_mul]

/-- So has a row without weight. -/
theorem rowOverlap_weighted_eq_zero (hsize : values.size = weights.size) {j : Nat}
    (h : r.rowOverlap turn radius weights j = 0) :
    r.rowOverlap turn radius (weighted weights values) j = 0 := by
  have hcells := (Finset.sum_eq_zero_iff_of_nonneg fun i _ =>
    overlapSum_nonneg hturn hnonneg (j * r.target.columns + i)).mp h
  exact Finset.sum_eq_zero fun i hi =>
    overlapSum_weighted_eq_zero hturn hnonneg hsize (hcells i hi)

end Weights

section Swept

variable (hs : r.source.Partition) (ht : r.target.Partition) (hstart : r.StartsWest)
  (hturn : turn ≠ 0) (hradius : radius ≠ 0)
include hs ht hstart hturn hradius

/-- What a cell has is what the unit operator makes of the field, over the area of the cell. -/
theorem overlapSum_eq_mulVec (field : Array Rat) {b : Nat} (hb : b < r.target.size) :
    r.overlapSum turn radius field b = (r.target.cellAreas turn radius).getD b 0 *
      r.unitOperator.mulVec (fun a => field.getD a 0) b := by
  have harea := ht.cellArea_ne_zero hturn hradius hb
  rw [overlapSum, SparseMatrix.mulVec, Finset.mul_sum]
  refine Finset.sum_congr rfl fun a ha => ?_
  rw [unitOperator, dense_eq_commonArea hs ht hstart hturn hradius _ hb (Finset.mem_range.mp ha),
    getD_unitWeights hb, one_mul, ← mul_assoc, mul_div_cancel₀ _ harea]

/-- **Adding up overlaps** gives what a cell has, but for a factor that all cells share. -/
theorem bucketSums_overlapSum (field : Array Rat) {b : Nat} (hb : b < r.target.size) :
    (SparseMatrix.bucketSums r.target.size ((r.overlaps none).map fun o =>
      (o.target, o.amount * field.getD o.source 0))).getD b 0 =
        r.source.columns / (turn * (radius * radius)) * r.overlapSum turn radius field b := by
  rw [sum_overlaps_eq hs ht hb fun a => field.getD a 0,
    overlapSum_eq_mulVec hs ht hstart hturn hradius field hb]
  obtain ⟨j, i, hj, hi, rfl⟩ := Lattice.exists_cell hb
  rw [Lattice.getD_cellAreas _ _ hj hi, Lattice.rowArea_eq, Lattice.div_cell hi]
  field_simp

/-- All of the target has the integral of the field. -/
theorem sum_overlapSum (field : Array Rat) :
    ∑ b ∈ Finset.range r.target.size, r.overlapSum turn radius field b =
      r.source.integral turn radius field := by
  have hintegral := integral_unitOperator hs ht turn radius
    fun b hb => getD_tabulated (r.unitOperator.mulVec fun a => field.getD a 0) hb 0
  rw [← hintegral]
  refine Finset.sum_congr rfl fun b hb => ?_
  have hb := Finset.mem_range.mp hb
  rw [overlapSum_eq_mulVec hs ht hstart hturn hradius field hb, getD_tabulated _ hb]

end Swept

/-! ## Quotients -/

/-- A common factor does not change a quotient. -/
theorem quotientOr_scaled (missing : Extended) {k : Rat} (hk : k ≠ 0) (w v : Rat) :
    quotientOr missing (number (k * w)) (number (k * v)) =
      if w = 0 then missing else number (v / w) := by
  rw [quotientOr_number, mul_div_mul_left _ _ hk]
  simp only [mul_eq_zero, hk, false_or]

/-- **A quotient times its weight** is what was divided, if nothing is where there is no weight. -/
theorem mul_toRat_quotient (missing : Extended) {w v : Rat} (h : w = 0 → v = 0) :
    w * (if w = 0 then missing else number (v / w)).toRat = v := by
  split_ifs with hw
  · rw [hw, h hw, zero_mul]
  · exact mul_div_cancel₀ v hw

/-! ## Rows -/

/-- A row of numbers sums to a number. -/
theorem rowTotal_number {n m j : Nat} {xs : Array Extended} {f : Nat → Rat} (hj : j < m)
    (hsize : xs.size = m * n) (hxs : ∀ i, i < n → xs.getD (j * n + i) 0 = number (f i)) :
    rowTotal n xs j = number (∑ i ∈ Finset.range n, f i) := by
  have hrow : fieldAt xs n j = tabulated n fun i => number (f i) :=
    eq_tabulated (size_fieldAt hsize hj) fun i hi => (getD_fieldAt hsize hj hi 0).trans (hxs i hi)
  have hlist : (fieldAt xs n j).toList = ((List.range n).map f).map number := by
    rw [hrow, tabulated, List.map_map]
    rfl
  rw [← sum_map_range, ← Scalar.sum_eq, ← Extended.sum_number, ← hlist]
  rfl

/-- **Polar means** replace the values of the first and the last row. -/
theorem getD_averages_polarMean {α : Type} [Scalar α] (r : Remap α) (weights values : Array α)
    (missing : α) {b : Nat} (hb : b < r.target.size) :
    (r.averages weights values missing true).getD b 0 =
      if b / r.target.columns = 0 ∨ b / r.target.columns = r.target.rows - 1 then
        quotientOr missing
          (rowTotal r.target.columns (r.accumulate weights values).1 (b / r.target.columns))
          (rowTotal r.target.columns (r.accumulate weights values).2 (b / r.target.columns))
      else (r.averages weights values missing false).getD b 0 := by
  have hsize := r.size_averages weights values missing false
  have hpolar : r.averages weights values missing true =
      ((r.averages weights values missing false).toList.zipIdx.map fun t =>
        if t.2 / r.target.columns = 0 then
          quotientOr missing (rowTotal r.target.columns (r.accumulate weights values).1 0)
            (rowTotal r.target.columns (r.accumulate weights values).2 0)
        else if t.2 / r.target.columns = r.target.rows - 1 then
          quotientOr missing
            (rowTotal r.target.columns (r.accumulate weights values).1 (r.target.rows - 1))
            (rowTotal r.target.columns (r.accumulate weights values).2 (r.target.rows - 1))
        else t.1).toArray := by
    unfold averages
    simp only [if_true, Bool.false_eq_true, if_false]
  rw [hpolar, Array.getD_eq_getD_getElem?, Array.getD_eq_getD_getElem?, List.getElem?_toArray,
    List.getElem?_map, List.getElem?_zipIdx, Array.getElem?_toList,
    Array.getElem?_eq_getElem (hb.trans_eq hsize.symm)]
  simp only [Option.map_some, Option.getD_some, Nat.zero_add]
  by_cases hsouth : b / r.target.columns = 0
  · rw [if_pos hsouth, if_pos (Or.inl hsouth), hsouth]
  by_cases hnorth : b / r.target.columns = r.target.rows - 1
  · rw [if_neg hsouth, if_pos hnorth, if_pos (Or.inr hnorth), hnorth]
  · rw [if_neg hsouth, if_neg hnorth, if_neg (not_or.mpr ⟨hsouth, hnorth⟩)]

/-! ## Averages -/

section Average

variable (hs : r.source.Partition) (ht : r.target.Partition) {weights : Array Rat}
  {values : Array Extended}

/-- A row between the first and the last one is as without polar means. -/
theorem getD_averages_inner (missing : Extended) {j i : Nat} (hj : j < r.target.rows)
    (hi : i < r.target.columns) (hinner : ¬(j = 0 ∨ j = r.target.rows - 1)) :
    (r.extended.averages (weights.map number) values missing true).getD
        (j * r.target.columns + i) 0 =
      (r.extended.averages (weights.map number) values missing false).getD
        (j * r.target.columns + i) 0 := by
  have hb : j * r.target.columns + i < r.extended.target.size :=
    (Lattice.cell_lt_size hj hi).trans_eq r.target.size_extended.symm
  have hcolumns : r.extended.target.columns = r.target.columns := rfl
  have hrows : r.extended.target.rows = r.target.rows := r.target.rows_extended
  rw [getD_averages_polarMean _ _ _ _ hb, hcolumns, hrows, Lattice.div_cell hi, if_neg hinner]

variable (hstart : r.StartsWest) (hradius : radius ≠ 0) (hsize : values.size = weights.size)
  (hfinite : ∀ a, a < r.source.size → weights.getD a 0 ≠ 0 →
    Scalar.isFinite (values.getD a 0) = true)

section Quotients

variable (hturn : turn ≠ 0)
include hs ht hstart hradius hsize hfinite hturn

/-- **What is accumulated** for a cell is what it has of the weights and of the weighted values, but
for a factor that all cells share. -/
theorem accumulate_overlapSum : ∃ k : Rat, k ≠ 0 ∧ ∀ b, b < r.target.size →
    (r.extended.accumulate (weights.map number) values).1.getD b 0 =
        number (k * r.overlapSum turn radius weights b) ∧
      (r.extended.accumulate (weights.map number) values).2.getD b 0 =
        number (k * r.overlapSum turn radius (weighted weights values) b) := by
  have hm : (r.source.columns : Rat) ≠ 0 := by exact_mod_cast hs.columns_pos.ne'
  refine ⟨r.source.columns / (turn * (radius * radius)),
    div_ne_zero hm (mul_ne_zero hturn (mul_ne_zero hradius hradius)), fun b hb => ?_⟩
  have hsums := accumulate_extended hs ht hfinite hb
  simp only [← getD_weighted hsize, bucketSums_overlapSum hs ht hstart hturn hradius _ hb] at hsums
  exact hsums

/-- **The value of a cell** is the quotient of what the cell has. -/
theorem getD_averages_overlapSum (missing : Extended) {b : Nat} (hb : b < r.target.size) :
    (r.extended.averages (weights.map number) values missing false).getD b 0 =
      if r.overlapSum turn radius weights b = 0 then missing
      else number (r.overlapSum turn radius (weighted weights values) b /
        r.overlapSum turn radius weights b) := by
  obtain ⟨k, hk, hcells⟩ := accumulate_overlapSum hs ht hstart hradius hsize hfinite hturn
  obtain ⟨hweight, hvalue⟩ := hcells b hb
  rw [getD_averages _ _ _ _ (hb.trans_eq r.target.size_extended.symm), hweight, hvalue,
    quotientOr_scaled missing hk]

/-- **The mean of a polar row** is the quotient of what the row has. -/
theorem getD_averages_rowMean (missing : Extended) {j i : Nat} (hj : j < r.target.rows)
    (hi : i < r.target.columns) (hpolar : j = 0 ∨ j = r.target.rows - 1) :
    (r.extended.averages (weights.map number) values missing true).getD
        (j * r.target.columns + i) 0 =
      if r.rowOverlap turn radius weights j = 0 then missing
      else number (r.rowOverlap turn radius (weighted weights values) j /
        r.rowOverlap turn radius weights j) := by
  obtain ⟨k, hk, hcells⟩ := accumulate_overlapSum hs ht hstart hradius hsize hfinite hturn
  have hb := Lattice.cell_lt_size hj hi
  have hcolumns : r.extended.target.columns = r.target.columns := rfl
  obtain ⟨hweights, hvalues⟩ := r.extended.size_accumulate (weights.map number) values
  have htarget : r.extended.target.size = r.target.rows * r.target.columns :=
    r.target.size_extended
  rw [getD_averages_polarMean _ _ _ _ (hb.trans_eq r.target.size_extended.symm), hcolumns,
    Lattice.div_cell hi, if_pos (r.target.rows_extended ▸ hpolar),
    rowTotal_number hj (hweights.trans htarget) fun i hi =>
      (hcells _ (Lattice.cell_lt_size hj hi)).1,
    rowTotal_number hj (hvalues.trans htarget) fun i hi =>
      (hcells _ (Lattice.cell_lt_size hj hi)).2,
    ← Finset.mul_sum, ← Finset.mul_sum, quotientOr_scaled missing hk]
  rfl

end Quotients

section Integrals

variable (hturn : 0 < turn) (hnonneg : ∀ a, a < r.source.size → 0 ≤ weights.getD a 0)
include hs ht hstart hradius hsize hfinite hturn hnonneg

/-- The value of a cell counts for what the cell has of the weighted values. -/
theorem overlapSum_mul_average (missing : Extended) {b : Nat} (hb : b < r.target.size) :
    r.overlapSum turn radius weights b *
        ((r.extended.averages (weights.map number) values missing false).getD b 0).toRat =
      r.overlapSum turn radius (weighted weights values) b := by
  rw [getD_averages_overlapSum hs ht hstart hradius hsize hfinite hturn.ne' missing hb]
  exact mul_toRat_quotient missing (overlapSum_weighted_eq_zero hturn hnonneg hsize)

/-- **A row has the same weighted integral** with and without polar means. -/
theorem sum_row_polarMean (missing : Extended) {j : Nat} (hj : j < r.target.rows) :
    ∑ i ∈ Finset.range r.target.columns,
        r.overlapSum turn radius weights (j * r.target.columns + i) *
          ((r.extended.averages (weights.map number) values missing true).getD
            (j * r.target.columns + i) 0).toRat =
      ∑ i ∈ Finset.range r.target.columns,
        r.overlapSum turn radius weights (j * r.target.columns + i) *
          ((r.extended.averages (weights.map number) values missing false).getD
            (j * r.target.columns + i) 0).toRat := by
  by_cases hpolar : j = 0 ∨ j = r.target.rows - 1
  -- One mean for all cells of the row, so it counts by what the whole row has of the weights.
  · calc
      _ = r.rowOverlap turn radius weights j *
          (if r.rowOverlap turn radius weights j = 0 then missing
            else number (r.rowOverlap turn radius (weighted weights values) j /
              r.rowOverlap turn radius weights j)).toRat := by
        rw [rowOverlap, Finset.sum_mul]
        refine Finset.sum_congr rfl fun i hi => ?_
        rw [getD_averages_rowMean hs ht hstart hradius hsize hfinite hturn.ne' missing hj
          (Finset.mem_range.mp hi) hpolar, rowOverlap]
      _ = r.rowOverlap turn radius (weighted weights values) j :=
        mul_toRat_quotient missing (rowOverlap_weighted_eq_zero hturn hnonneg hsize)
      _ = _ := Finset.sum_congr rfl fun i hi =>
        (overlapSum_mul_average hs ht hstart hradius hsize hfinite hturn hnonneg missing
          (Lattice.cell_lt_size hj (Finset.mem_range.mp hi))).symm
  · exact Finset.sum_congr rfl fun i hi => by
      rw [getD_averages_inner missing hj (Finset.mem_range.mp hi) hpolar]

end Integrals

end Average

/-- **Polar means keep weighted integrals.** With polar means there is a result whenever there is
one without, and it differs in the first and the last row only. Every cell of these, also of the
one row that is both, gets what the row has of the weighted values over what it has of the weights,
by common area, or the missing value if the row has no weight. If every cell counts by what it has
of the weights, the integral over a row, and so over the whole target, is the same with and without
polar means: it is that of the weighted values, also where a mean fills a missing cell. -/
theorem average_polarMean (hs : r.source.Partition) (ht : r.target.Partition)
    (hsource : r.source.offset ≤ r.source.columns) (htarget : 0 ≤ r.target.offset)
    (hturn : 0 < turn) (hradius : radius ≠ 0) {weights : Array Rat} {values : Array Extended}
    (hweights : weights.size = r.source.size) (hvalues : values.size = r.source.size)
    (hnonneg : ∀ a, a < r.source.size → 0 ≤ weights.getD a 0)
    (hfinite : ∀ a, a < r.source.size → weights.getD a 0 ≠ 0 →
      Scalar.isFinite (values.getD a 0) = true) (missing : Extended) :
    ∃ y z, r.extended.average (weights.map number) values none missing false = .ok y ∧
      r.extended.average (weights.map number) values none missing true = .ok z ∧
      z.size = r.target.size ∧
      (∀ j i, j < r.target.rows → i < r.target.columns → ¬(j = 0 ∨ j = r.target.rows - 1) →
        z.getD (j * r.target.columns + i) 0 = y.getD (j * r.target.columns + i) 0) ∧
      (∀ j i, j < r.target.rows → i < r.target.columns → j = 0 ∨ j = r.target.rows - 1 →
        z.getD (j * r.target.columns + i) 0 =
          if r.rowOverlap turn radius weights j = 0 then missing
          else number (r.rowOverlap turn radius (weighted weights values) j /
            r.rowOverlap turn radius weights j)) ∧
      (∀ j, j < r.target.rows →
        ∑ i ∈ Finset.range r.target.columns,
            r.overlapSum turn radius weights (j * r.target.columns + i) *
              (z.getD (j * r.target.columns + i) 0).toRat =
          ∑ i ∈ Finset.range r.target.columns,
            r.overlapSum turn radius weights (j * r.target.columns + i) *
              (y.getD (j * r.target.columns + i) 0).toRat) ∧
      ∑ b ∈ Finset.range r.target.size,
          r.overlapSum turn radius weights b * (z.getD b 0).toRat =
        ∑ b ∈ Finset.range r.target.size,
          r.overlapSum turn radius weights b * (y.getD b 0).toRat ∧
      ∑ b ∈ Finset.range r.target.size,
          r.overlapSum turn radius weights b * (y.getD b 0).toRat =
        r.source.integral turn radius (weighted weights values) := by
  have hstart := startsWest_of_offsets hs.columns_pos hsource htarget
  have hsize := hvalues.trans hweights.symm
  have hrow {j : Nat} (hj : j < r.target.rows) :=
    sum_row_polarMean hs ht hstart hradius hsize hfinite hturn hnonneg missing hj
  refine ⟨r.extended.averages (weights.map number) values missing false,
    r.extended.averages (weights.map number) values missing true,
    average_extended hweights hvalues hfinite missing false,
    average_extended hweights hvalues hfinite missing true,
    (size_averages ..).trans r.target.size_extended,
    fun j i hj hi => getD_averages_inner missing hj hi,
    fun j i hj hi =>
      getD_averages_rowMean hs ht hstart hradius hsize hfinite hturn.ne' missing hj hi,
    fun j hj => hrow hj, ?_, ?_⟩
  · rw [Lattice.size, sum_range_mul, sum_range_mul]
    exact Finset.sum_congr rfl fun j hj => hrow (Finset.mem_range.mp hj)
  · rw [← sum_overlapSum hs ht hstart hturn.ne' hradius]
    exact Finset.sum_congr rfl fun b hb =>
      overlapSum_mul_average hs ht hstart hradius hsize hfinite hturn hnonneg missing
        (Finset.mem_range.mp hb)

/-- Four columns to two, and two rows to three. Of the first row the western cell meets no weight,
but no number and an infinity; its mean is filled in from the eastern cell. -/
theorem average_polarMean_filled :
    let r : Remap Rat := ⟨⟨4, 0, #[-1, 0, 1]⟩, ⟨2, 0, #[-1, -1 / 2, 1 / 2, 1]⟩⟩
    let weights : Array Rat := #[0, 0, 1, 3, 1, 1, 1, 1]
    let values : Array Extended := #[.undefined, .infinite true, .number 5, .number 1,
      .number 2, .number 2, .number 2, .number 6]
    let y : Array Extended :=
      #[.undefined, .number 2, .number 2, .number (8 / 3), .number 2, .number 4]
    let z : Array Extended :=
      #[.number 2, .number 2, .number 2, .number (8 / 3), .number 3, .number 3]
    r.extended.average (weights.map number) values none .undefined false = .ok y ∧
      r.extended.average (weights.map number) values none .undefined true = .ok z ∧
      ∑ b ∈ Finset.range r.target.size, r.overlapSum 6 1 weights b * (z.getD b 0).toRat =
        ∑ b ∈ Finset.range r.target.size, r.overlapSum 6 1 weights b * (y.getD b 0).toRat := by
  intro r weights values y z
  have hs : r.source.Partition := ⟨by decide, by decide, rfl, rfl, by decide +kernel⟩
  have ht : r.target.Partition := ⟨by decide, by decide, rfl, rfl, by decide +kernel⟩
  have hturn : (0 : Rat) < 6 := by decide +kernel
  have hradius : (1 : Rat) ≠ 0 := one_ne_zero
  have hweights : weights.size = r.source.size := rfl
  have hvalues : values.size = r.source.size := rfl
  have hplain : r.extended.average (weights.map number) values none .undefined false = .ok y :=
    eq_ok_of_toOption (by decide +kernel)
  have hpolar : r.extended.average (weights.map number) values none .undefined true = .ok z :=
    eq_ok_of_toOption (by decide +kernel)
  obtain ⟨y', z', hy, hz, -, -, -, -, htotal, -⟩ :=
    average_polarMean hs ht (by decide +kernel) (by decide +kernel) hturn hradius hweights hvalues
      (by decide +kernel) (by decide +kernel) .undefined
  obtain rfl : y = y' := Except.ok.inj (hplain.symm.trans hy)
  obtain rfl : z = z' := Except.ok.inj (hpolar.symm.trans hz)
  exact ⟨hplain, hpolar, htotal⟩

end Regrid.Remap

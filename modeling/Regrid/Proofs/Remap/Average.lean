import Mathlib.Algebra.Order.BigOperators.Group.Finset
import Regrid.Proofs.Outcome
import Regrid.Proofs.Remap.Conservation
import Regrid.Proofs.Remap.Extended
import Regrid.Proofs.Remap.Intersection
import Regrid.Proofs.Sparse.Extended
import Regrid.Remap.Average

/-!
# Averages over target cells

A target cell gets the average of the source cells that overlap it (`Hntr.regrid1`), by the weights
and by the common areas. The values of cells without a weight may be anything, also no numbers.

* `sum_overlaps`: adding up the overlaps of a target cell is applying the unit operator, but for a
  positive factor of the cell, which the quotient of two such sums does not see.
* `mulVec_eq_zero_iff`: a target cell meets no weight just if the operator takes the weights to zero
  there.
* `exists_le_mean`, `exists_mean_le`: a mean lies between two of its values.
* `getD_averages_extended`: an average is the quotient of what the operator makes of the weighted
  values and of the weights.
* `sum_means`: the averages have the integral of the weighted field.
-/

namespace Regrid

/-! ## Means -/

section Means

variable {n : Nat} {c x : Nat → Rat}

/-- Some value that counts is not above the mean. -/
theorem exists_le_mean (hc : ∀ a, a < n → 0 ≤ c a) (hne : ∑ a ∈ Finset.range n, c a ≠ 0) :
    ∃ a, a < n ∧ c a ≠ 0 ∧
      x a ≤ (∑ a ∈ Finset.range n, c a * x a) / ∑ a ∈ Finset.range n, c a := by
  have hpos : 0 < ∑ a ∈ Finset.range n, c a :=
    (Finset.sum_nonneg fun a ha => hc a (Finset.mem_range.mp ha)).lt_of_ne' hne
  by_contra! h
  have hlt : (∑ a ∈ Finset.range n, c a) *
      ((∑ a ∈ Finset.range n, c a * x a) / ∑ a ∈ Finset.range n, c a) <
        ∑ a ∈ Finset.range n, c a * x a := by
    obtain ⟨a, ha, hca⟩ := Finset.exists_ne_zero_of_sum_ne_zero hne
    rw [Finset.sum_mul]
    refine Finset.sum_lt_sum (fun a ha => ?_) ⟨a, ha, ?_⟩
    · rw [Finset.mem_range] at ha
      rcases eq_or_ne (c a) 0 with h0 | h0
      · rw [h0, zero_mul, zero_mul]
      · exact mul_le_mul_of_nonneg_left (h a ha h0).le (hc a ha)
    · rw [Finset.mem_range] at ha
      exact mul_lt_mul_of_pos_left (h a ha hca) ((hc a ha).lt_of_ne' hca)
  rw [mul_div_cancel₀ _ hne] at hlt
  exact lt_irrefl _ hlt

/-- Some value that counts is not below the mean. -/
theorem exists_mean_le (hc : ∀ a, a < n → 0 ≤ c a) (hne : ∑ a ∈ Finset.range n, c a ≠ 0) :
    ∃ a, a < n ∧ c a ≠ 0 ∧
      (∑ a ∈ Finset.range n, c a * x a) / ∑ a ∈ Finset.range n, c a ≤ x a := by
  obtain ⟨a, ha, hca, hle⟩ := exists_le_mean (x := fun a => -x a) hc hne
  refine ⟨a, ha, hca, ?_⟩
  simp only [mul_neg, Finset.sum_neg_distrib, neg_div] at hle
  exact neg_le_neg_iff.mp hle

end Means

namespace Remap

/-- The field of the products of weights and values; where there is no weight it is zero. -/
def weighted (weights : Array Rat) (values : Array Extended) : Array Rat :=
  Array.zipWith (fun w x => w * x.toRat) weights values

theorem getD_weighted {weights : Array Rat} {values : Array Extended}
    (h : values.size = weights.size) (a : Nat) :
    (weighted weights values).getD a 0 = weights.getD a 0 * (values.getD a 0).toRat := by
  unfold weighted
  rcases Nat.lt_or_ge a weights.size with hlt | hge
  · simp [Array.getD, hlt, h]
  · simp [Array.getD, not_lt.mpr hge]

/-- A source cell has a weight and overlaps a target cell. -/
def Counts (r : Remap Rat) (weights : Nat → Rat) (b a : Nat) : Prop :=
  a < r.source.size ∧ weights a ≠ 0 ∧ ¬ Disjoint (r.target.interior b) (r.source.interior a)

variable {r : Remap Rat}

section Sums

variable (hs : r.source.Partition) (ht : r.target.Partition)
include hs ht

/-- **Adding up overlaps** is applying the unit operator, but for a factor of the target row. -/
theorem sum_overlaps_eq {b : Nat} (hb : b < r.target.size) (field : Nat → Rat) :
    (SparseMatrix.bucketSums r.target.size ((r.overlaps none).map fun o =>
      (o.target, o.amount * field o.source))).getD b 0 =
        r.target.band (b / r.target.columns) * (r.source.columns / r.target.columns) *
          r.unitOperator.mulVec field b := by
  have hband := ht.band_cell_ne_zero hb
  have hm : (r.source.columns : Rat) ≠ 0 := by exact_mod_cast hs.columns_pos.ne'
  have hn : (r.target.columns : Rat) ≠ 0 := by exact_mod_cast ht.columns_pos.ne'
  rw [SparseMatrix.getD_bucketSums_exact hb, List.map_map,
    sum_map_ite (r.overlaps none) (Finset.range r.source.size) Overlap.source _
      fun o ho => Finset.mem_range.mpr (mem_overlaps hs ht ho).2, SparseMatrix.mulVec,
    Finset.mul_sum]
  refine Finset.sum_congr rfl fun a _ => ?_
  have htotal : Overlap.total (r.overlaps none) b a = r.target.band (b / r.target.columns)
      * (r.source.columns / r.target.columns) * r.unitOperator.dense b a := by
    rw [unitOperator, dense_operator_total, getD_unitWeights hb]
    field_simp
  rw [← mul_assoc, ← htotal, Overlap.total, ← List.sum_map_mul_right]
  refine congrArg List.sum (List.map_congr_left fun o _ => ?_)
  simp only [Function.comp]
  by_cases hb : o.target = b <;> by_cases ha : o.source = a <;> simp [hb, ha]

/-- The factor is not zero. -/
theorem sum_overlaps {b : Nat} (hb : b < r.target.size) : ∃ k : Rat, k ≠ 0 ∧ ∀ field : Nat → Rat,
    (SparseMatrix.bucketSums r.target.size ((r.overlaps none).map fun o =>
      (o.target, o.amount * field o.source))).getD b 0 = k * r.unitOperator.mulVec field b := by
  have hm : (r.source.columns : Rat) ≠ 0 := by exact_mod_cast hs.columns_pos.ne'
  have hn : (r.target.columns : Rat) ≠ 0 := by exact_mod_cast ht.columns_pos.ne'
  exact ⟨_, mul_ne_zero (ht.band_cell_ne_zero hb) (div_ne_zero hm hn), sum_overlaps_eq hs ht hb⟩

variable (hstart : r.StartsWest)
include hstart

theorem dense_nonneg {b a : Nat} : 0 ≤ r.unitOperator.dense b a := by
  unfold SparseMatrix.dense
  rw [Scalar.sum_eq]
  refine List.sum_nonneg fun x hx => ?_
  obtain ⟨e, he, rfl⟩ := List.mem_map.mp hx
  refine entry_nonneg hs ht hstart (fun b hb => ?_) (List.mem_of_mem_filter he)
  rw [getD_unitWeights hb]
  exact zero_le_one

theorem dense_eq_zero_iff {b a : Nat} (hb : b < r.target.size) (ha : a < r.source.size) :
    r.unitOperator.dense b a = 0 ↔ Disjoint (r.target.interior b) (r.source.interior a) := by
  have harea := ht.cellArea_ne_zero one_ne_zero one_ne_zero hb
  rw [unitOperator, dense_eq_commonArea hs ht hstart one_ne_zero one_ne_zero _ hb ha,
    getD_unitWeights hb, one_mul, div_eq_zero_iff, or_iff_left harea,
    Lattice.commonArea_eq_zero_iff one_ne_zero one_ne_zero]

/-- **A target cell meets no weight** just if the operator takes the weights to zero there. -/
theorem mulVec_eq_zero_iff {weights : Nat → Rat} (hw : ∀ a, a < r.source.size → 0 ≤ weights a)
    {b : Nat} (hb : b < r.target.size) : r.unitOperator.mulVec weights b = 0 ↔
      ∀ a, a < r.source.size → ¬ Disjoint (r.target.interior b) (r.source.interior a) →
        weights a = 0 := by
  have hterm : ∀ a ∈ Finset.range r.source.size, 0 ≤ r.unitOperator.dense b a * weights a :=
    fun a ha => mul_nonneg (dense_nonneg hs ht hstart) (hw a (Finset.mem_range.mp ha))
  refine (Finset.sum_eq_zero_iff_of_nonneg hterm).trans ?_
  refine forall_congr' fun a => ?_
  rw [Finset.mem_range]
  refine forall_congr' fun ha => ?_
  rw [mul_eq_zero, dense_eq_zero_iff hs ht hstart hb ha, or_iff_not_imp_left]

/-- Where no weight is met, the operator takes the weighted field to zero as well. -/
theorem mulVec_weighted_eq_zero {weights x : Nat → Rat}
    (hw : ∀ a, a < r.source.size → 0 ≤ weights a) {b : Nat} (hb : b < r.target.size)
    (h : r.unitOperator.mulVec weights b = 0) :
    r.unitOperator.mulVec (fun a => weights a * x a) b = 0 := by
  rw [mulVec_eq_zero_iff hs ht hstart hw hb] at h
  refine Finset.sum_eq_zero fun a ha => ?_
  have ha : a < r.source.size := Finset.mem_range.mp ha
  by_cases hdisjoint : Disjoint (r.target.interior b) (r.source.interior a)
  · rw [(dense_eq_zero_iff hs ht hstart hb ha).mpr hdisjoint, zero_mul]
  · simp only [h a ha hdisjoint, zero_mul, mul_zero]

/-- **The mean lies between two values that it is made from.** -/
theorem exists_values_around {weights x : Nat → Rat}
    (hw : ∀ a, a < r.source.size → 0 ≤ weights a) {b : Nat} (hb : b < r.target.size)
    (h : r.unitOperator.mulVec weights b ≠ 0) :
    ∃ a a', r.Counts weights b a ∧ r.Counts weights b a' ∧
      x a ≤ r.unitOperator.mulVec (fun a => weights a * x a) b / r.unitOperator.mulVec weights b ∧
      r.unitOperator.mulVec (fun a => weights a * x a) b / r.unitOperator.mulVec weights b ≤
        x a' := by
  have hc : ∀ a, a < r.source.size → 0 ≤ r.unitOperator.dense b a * weights a :=
    fun a ha => mul_nonneg (dense_nonneg hs ht hstart) (hw a ha)
  have hsum : r.unitOperator.mulVec (fun a => weights a * x a) b =
      ∑ a ∈ Finset.range r.source.size, r.unitOperator.dense b a * weights a * x a :=
    Finset.sum_congr rfl fun a _ => (mul_assoc ..).symm
  have hmet : ∀ a, a < r.source.size → r.unitOperator.dense b a * weights a ≠ 0 →
      r.Counts weights b a := fun a ha hne =>
    ⟨ha, right_ne_zero_of_mul hne,
      mt (dense_eq_zero_iff hs ht hstart hb ha).mpr (left_ne_zero_of_mul hne)⟩
  obtain ⟨a, ha, hca, hle⟩ := exists_le_mean (x := x) hc h
  obtain ⟨a', ha', hca', hge⟩ := exists_mean_le (x := x) hc h
  rw [hsum]
  exact ⟨a, a', hmet a ha hca, hmet a' ha' hca', hle, hge⟩

/-- **The means have the integral of the weighted field**, if each counts by what the operator makes
of the weights: where it makes nothing of them, it makes nothing of the weighted field. -/
theorem sum_means (turn radius : Rat) {weights x : Nat → Rat}
    (hw : ∀ a, a < r.source.size → 0 ≤ weights a) {field w v : Array Rat}
    (hfield : ∀ a, field.getD a 0 = weights a * x a)
    (hweight : ∀ b, b < r.target.size → w.getD b 0 = r.unitOperator.mulVec weights b)
    (hvalue : ∀ b, b < r.target.size →
      v.getD b 0 = r.unitOperator.mulVec (fun a => weights a * x a) b) {mean : Nat → Rat}
    (hmean : ∀ b, b < r.target.size → w.getD b 0 ≠ 0 → mean b = v.getD b 0 / w.getD b 0) :
    ∑ b ∈ (Finset.range r.target.size).filter (fun b => w.getD b 0 ≠ 0),
        (r.target.cellAreas turn radius).getD b 0 * w.getD b 0 * mean b =
      r.source.integral turn radius field := by
  have hterm : ∀ b ∈ (Finset.range r.target.size).filter (fun b => w.getD b 0 ≠ 0),
      (r.target.cellAreas turn radius).getD b 0 * w.getD b 0 * mean b =
        (r.target.cellAreas turn radius).getD b 0 * v.getD b 0 := by
    intro b hb
    obtain ⟨hb, hne⟩ := Finset.mem_filter.mp hb
    rw [hmean b (Finset.mem_range.mp hb) hne, mul_assoc, mul_div_cancel₀ _ hne]
  have hrest : ∀ b ∈ Finset.range r.target.size,
      (r.target.cellAreas turn radius).getD b 0 * v.getD b 0 ≠ 0 → w.getD b 0 ≠ 0 := by
    intro b hb hne hzero
    rw [Finset.mem_range] at hb
    rw [hweight b hb] at hzero
    rw [hvalue b hb, mulVec_weighted_eq_zero hs ht hstart hw hb hzero] at hne
    exact hne (mul_zero _)
  rw [Finset.sum_congr rfl hterm, Finset.sum_filter_of_ne hrest]
  refine integral_unitOperator hs ht turn radius fun b hb => ?_
  simp only [hfield]
  exact hvalue b hb

end Sums

/-! ## Accumulating -/

/-- What an overlap adds: a value that is not finite is not read. -/
theorem term_extended {w x : Rat} {value : Extended} (hx : w ≠ 0 → value = .number x) :
    (if Extended.number w != 0 then Extended.number w * value else 0) = .number (w * x) := by
  rw [Extended.number_zero, Extended.number_bne]
  by_cases hw : w = 0
  · rw [if_neg (by simpa using hw), hw, zero_mul]
  · rw [if_pos (by simpa using hw), hx hw, Extended.number_mul]

/-- **The sums are numbers**, if the values of the cells with a weight are. -/
theorem accumulate_extended (hs : r.source.Partition) (ht : r.target.Partition)
    {weights : Array Rat} {values : Array Extended}
    (hfinite : ∀ a, a < r.source.size → weights.getD a 0 ≠ 0 →
      Scalar.isFinite (values.getD a 0) = true) {b : Nat} (hb : b < r.target.size) :
    (r.extended.accumulate (weights.map .number) values).1.getD b 0 =
        .number ((SparseMatrix.bucketSums r.target.size ((r.overlaps none).map fun o =>
          (o.target, o.amount * weights.getD o.source 0))).getD b 0) ∧
      (r.extended.accumulate (weights.map .number) values).2.getD b 0 =
        .number ((SparseMatrix.bucketSums r.target.size ((r.overlaps none).map fun o =>
          (o.target, o.amount * (weights.getD o.source 0 * (values.getD o.source 0).toRat)))).getD
            b 0) := by
  have hterms : ((r.extended.overlaps none).map fun o =>
      let w := o.amount * (weights.map Extended.number).getD o.source 0
      (o.target, w, if w != 0 then w * values.getD o.source 0 else 0)) =
      (r.overlaps none).map fun o => (o.target,
        Extended.number (o.amount * weights.getD o.source 0), Extended.number
          (o.amount * (weights.getD o.source 0 * (values.getD o.source 0).toRat))) := by
    rw [r.overlaps_extended ht.columns_pos, List.map_map]
    refine List.map_congr_left fun o ho => ?_
    have hvalue : o.amount * weights.getD o.source 0 ≠ 0 →
        values.getD o.source 0 = .number (values.getD o.source 0).toRat := fun hne =>
      Extended.isFinite_iff.mp (hfinite _ (mem_overlaps hs ht ho).2 (right_ne_zero_of_mul hne))
    simp only [Function.comp, Overlap.extended, Extended.getD_number, Extended.number_mul,
      term_extended hvalue, mul_assoc]
  unfold accumulate
  simp only [hterms, List.map_map]
  rw [show r.extended.target.size = r.target.size from r.target.size_extended,
    ← SparseMatrix.getD_bucketSums_number hb, ← SparseMatrix.getD_bucketSums_number hb,
    List.map_map, List.map_map]
  exact ⟨rfl, rfl⟩

theorem quotientOr_number (missing : Extended) (w v : Rat) :
    quotientOr missing (.number w) (.number v) = if w = 0 then missing else .number (v / w) := by
  unfold quotientOr
  rw [Extended.number_zero, Extended.number_bne]
  by_cases hw : w = 0
  · rw [if_neg (by simpa using hw), if_pos hw]
  · rw [if_pos (by simpa using hw), if_neg hw, Extended.number_div hw]

theorem size_accumulate {α : Type} [Scalar α] (r : Remap α) (weights values : Array α) :
    (r.accumulate weights values).1.size = r.target.size ∧
      (r.accumulate weights values).2.size = r.target.size := by
  simp only [accumulate, SparseMatrix.size_bucketSums, and_self]

theorem size_averages {α : Type} [Scalar α] (r : Remap α) (weights values : Array α) (missing : α)
    (polarMean : Bool) : (r.averages weights values missing polarMean).size = r.target.size := by
  obtain ⟨h1, h2⟩ := r.size_accumulate weights values
  unfold averages
  cases polarMean <;> simp [h1, h2]

/-- An average without polar means is the quotient of the sums, if there is a weight. -/
theorem getD_averages {α : Type} [Scalar α] (r : Remap α) (weights values : Array α) (missing : α)
    {b : Nat} (hb : b < r.target.size) :
    (r.averages weights values missing false).getD b 0 =
      quotientOr missing ((r.accumulate weights values).1.getD b 0)
        ((r.accumulate weights values).2.getD b 0) := by
  obtain ⟨h1, h2⟩ := r.size_accumulate weights values
  unfold averages
  simp [Array.getD, h1, h2, hb]

/-- **An average is a quotient** of what the operator makes of weighted values and of weights. -/
theorem getD_averages_extended (hs : r.source.Partition) (ht : r.target.Partition)
    {weights : Array Rat} {values : Array Extended}
    (hfinite : ∀ a, a < r.source.size → weights.getD a 0 ≠ 0 →
      Scalar.isFinite (values.getD a 0) = true) (missing : Extended) {b : Nat}
    (hb : b < r.target.size) :
    (r.extended.averages (weights.map .number) values missing false).getD b 0 =
      if r.unitOperator.mulVec (fun a => weights.getD a 0) b = 0 then missing
      else .number (r.unitOperator.mulVec (fun a => weights.getD a 0 * (values.getD a 0).toRat) b /
        r.unitOperator.mulVec (fun a => weights.getD a 0) b) := by
  obtain ⟨k, hk, hsum⟩ := sum_overlaps hs ht hb
  obtain ⟨hsumw, hsumv⟩ := accumulate_extended hs ht hfinite hb
  have hb' : b < r.extended.target.size := hb.trans_eq r.target.size_extended.symm
  rw [getD_averages _ _ _ _ hb', hsumw, hsumv, hsum fun a => weights.getD a 0,
    hsum fun a => weights.getD a 0 * (values.getD a 0).toRat, quotientOr_number,
    mul_div_mul_left _ _ hk]
  simp only [mul_eq_zero, hk, false_or]

/-- **An average has a result** if the weights are numbers and the values of the cells with a weight
are. -/
theorem average_extended {weights : Array Rat} {values : Array Extended}
    (hweights : weights.size = r.source.size) (hvalues : values.size = r.source.size)
    (hfinite : ∀ a, a < r.source.size → weights.getD a 0 ≠ 0 →
      Scalar.isFinite (values.getD a 0) = true) (missing : Extended) (polarMean : Bool) :
    r.extended.average (weights.map .number) values none missing polarMean =
      .ok (r.extended.averages (weights.map .number) values missing polarMean) := by
  have hsize : r.extended.source.size = r.source.size := r.source.size_extended
  have hw : checkSize (weights.map Extended.number) r.extended.source.size "WTA" = .ok () :=
    if_pos (by rw [Array.size_map, hweights, hsize])
  have hv : checkSize values r.extended.source.size "A" = .ok () := if_pos (by rw [hvalues, hsize])
  have hwfinite : checkAllFinite "WTA" (weights.map Extended.number) = .ok () := by
    refine checkFinite_ok (fun x hx => ?_) _ _
    rw [Array.toList_map] at hx
    obtain ⟨q, -, rfl⟩ := List.mem_map.mp hx
    rfl
  have hread : ∀ place, checkFinite "A" (((weights.map Extended.number).toList.zipIdx.filterMap
      fun (w, i) => if w != 0 then some i else none).toArray.map fun i => values.getD i 0) place =
        .ok () := by
    refine checkFinite_ok (fun x hx => ?_) _
    simp only [Array.toList_map, List.mem_map, List.mem_filterMap] at hx
    obtain ⟨i, ⟨⟨w, i'⟩, hmem, hi⟩, rfl⟩ := hx
    rw [List.mk_mem_zipIdx_iff_getElem?, List.getElem?_map, Array.getElem?_toList,
      Option.map_eq_some_iff] at hmem
    obtain ⟨q, hq, rfl⟩ := hmem
    rw [Extended.number_zero, Extended.number_bne, Option.ite_none_right_eq_some] at hi
    obtain ⟨hne, rfl⟩ : q ≠ 0 ∧ i' = i := by simpa using hi
    obtain ⟨hlt, -⟩ := Array.getElem?_eq_some_iff.mp hq
    refine hfinite i' (hweights ▸ hlt) ?_
    rwa [Array.getD_eq_getD_getElem?, hq, Option.getD_some]
  unfold average
  simp only [hw, hv, hwfinite, hread, bind_ok]
  rfl

section Average

variable (hs : r.source.Partition) (ht : r.target.Partition)
  (hsource : r.source.offset ≤ r.source.columns) (htarget : 0 ≤ r.target.offset)
include hs ht hsource htarget

/-- **Averages are quotients of what the operator makes of weights and weighted values.** A target
cell is missing just if no source cell that overlaps it has a weight; otherwise its average lies
between the values of two such cells. The averages have the integral of the weighted field, if each
counts by the weight that the operator gives its cell. -/
theorem average_eq_quotient (turn radius : Rat) {weights : Array Rat} {values : Array Extended}
    (hweights : weights.size = r.source.size) (hvalues : values.size = r.source.size)
    (hnonneg : ∀ a, a < r.source.size → 0 ≤ weights.getD a 0)
    (hfinite : ∀ a, a < r.source.size → weights.getD a 0 ≠ 0 →
      Scalar.isFinite (values.getD a 0) = true) :
    ∃ u w v, r.build {} = .ok (u, []) ∧ u.apply (Tensor.ofArray weights) false = .ok w ∧
      u.apply (Tensor.ofArray (weighted weights values)) false = .ok v ∧
      (∀ b, b < r.target.size →
        (w.values.getD b 0 = 0 ↔ ∀ a, a < r.source.size →
          ¬ Disjoint (r.target.interior b) (r.source.interior a) → weights.getD a 0 = 0) ∧
        (w.values.getD b 0 ≠ 0 → ∃ a a', r.Counts (fun a => weights.getD a 0) b a ∧
          r.Counts (fun a => weights.getD a 0) b a' ∧
          (values.getD a 0).toRat ≤ v.values.getD b 0 / w.values.getD b 0 ∧
          v.values.getD b 0 / w.values.getD b 0 ≤ (values.getD a' 0).toRat)) ∧
      ∀ missing, ∃ y, r.extended.average (weights.map .number) values none missing false = .ok y ∧
        y.size = r.target.size ∧
        (∀ b, b < r.target.size → y.getD b 0 =
          if w.values.getD b 0 = 0 then missing
          else .number (v.values.getD b 0 / w.values.getD b 0)) ∧
        ∑ b ∈ (Finset.range r.target.size).filter (fun b => w.values.getD b 0 ≠ 0),
            (r.target.cellAreas turn radius).getD b 0 * w.values.getD b 0 * (y.getD b 0).toRat =
          r.source.integral turn radius (weighted weights values) := by
  have hstart := startsWest_of_offsets hs.columns_pos hsource htarget
  have hbounds : r.unitOperator.InBounds := operator_inBounds hs ht r.unitWeights
  have hproduct : ∀ a, (weighted weights values).getD a 0 =
      weights.getD a 0 * (values.getD a 0).toRat :=
    getD_weighted (hvalues.trans hweights.symm)
  have hwsize : (Tensor.ofArray weights).shape = [r.unitOperator.cols] :=
    congrArg (fun n => [n]) hweights
  have hvsize : (Tensor.ofArray (weighted weights values)).shape = [r.unitOperator.cols] := by
    refine congrArg (fun n => [n]) ?_
    rw [weighted, Array.size_zipWith, hweights, hvalues, min_self]
    rfl
  obtain ⟨w, hw, -, hweight⟩ := SparseMatrix.apply_eq hbounds hwsize
  obtain ⟨v, hv, -, hvalue⟩ := SparseMatrix.apply_eq hbounds hvsize
  simp only [Tensor.ofArray, hproduct] at hweight hvalue
  refine ⟨_, w, v, build_default ht, hw, hv, fun b hb => ?_, fun missing => ?_⟩
  · rw [hweight b hb, hvalue b hb]
    exact ⟨mulVec_eq_zero_iff hs ht hstart hnonneg hb,
      exists_values_around hs ht hstart hnonneg hb⟩
  have hmean : ∀ b, b < r.target.size →
      (r.extended.averages (weights.map .number) values missing false).getD b 0 =
        if w.values.getD b 0 = 0 then missing
        else .number (v.values.getD b 0 / w.values.getD b 0) := by
    intro b hb
    rw [hweight b hb, hvalue b hb]
    exact getD_averages_extended hs ht hfinite missing hb
  refine ⟨_, average_extended hweights hvalues hfinite missing false, ?_, hmean, ?_⟩
  · exact (size_averages ..).trans r.target.size_extended
  · refine sum_means hs ht hstart turn radius hnonneg hproduct hweight hvalue ?_
    intro b hb hne
    rw [hmean b hb, if_neg hne, Extended.toRat]

omit hs ht hsource htarget in
/-- Two cells of the source to one of the target: the first meets no weight, but no number and an
infinity, the second weighs three to one. -/
theorem average_eq_quotient_gap :
    Lattice.Partition ⟨4, 0, #[-1, 1]⟩ ∧ Lattice.Partition ⟨2, 0, #[-1, 1]⟩ ∧
    (Remap.extended ⟨⟨4, 0, #[-1, 1]⟩, ⟨2, 0, #[-1, 1]⟩⟩).average (#[0, 0, 1, 3].map .number)
        #[.undefined, .infinite true, .number 5, .number 1] none .undefined false =
      .ok #[.undefined, .number 2] ∧
    ∃ u w v, Remap.build (α := Rat) ⟨⟨4, 0, #[-1, 1]⟩, ⟨2, 0, #[-1, 1]⟩⟩ {} = .ok (u, []) ∧
      u.apply (Tensor.ofArray #[0, 0, 1, 3]) false = .ok w ∧
      u.apply (Tensor.ofArray #[0, 0, 5, 3]) false = .ok v ∧
      w.values.getD 0 0 = 0 ∧ v.values.getD 1 0 / w.values.getD 1 0 = 2 := by
  have hs : Lattice.Partition ⟨4, 0, #[-1, 1]⟩ :=
    ⟨by decide, by decide, rfl, rfl, by decide +kernel⟩
  have ht : Lattice.Partition ⟨2, 0, #[-1, 1]⟩ :=
    ⟨by decide, by decide, rfl, rfl, by decide +kernel⟩
  have haverage : (Remap.extended ⟨⟨4, 0, #[-1, 1]⟩, ⟨2, 0, #[-1, 1]⟩⟩).average
      (#[0, 0, 1, 3].map .number) #[.undefined, .infinite true, .number 5, .number 1] none
        .undefined false = .ok #[.undefined, .number 2] :=
    eq_ok_of_toOption (by decide +kernel)
  have hproduct : weighted #[0, 0, 1, 3] #[.undefined, .infinite true, .number 5, .number 1] =
      #[0, 0, 5, 3] := by
    decide +kernel
  have hweights : (#[0, 0, 1, 3] : Array Rat).size = 4 := rfl
  have hvalues : (#[.undefined, .infinite true, .number 5, .number 1] : Array Extended).size = 4 :=
    rfl
  obtain ⟨u, w, v, hu, hw, hv, -, hmean⟩ := average_eq_quotient (r := ⟨_, _⟩) hs ht
    (by decide +kernel) (by decide +kernel) 1 1 hweights hvalues (by decide +kernel)
    (by decide +kernel)
  obtain ⟨y, hy, -, hcells, -⟩ := hmean .undefined
  obtain rfl : #[.undefined, .number 2] = y := Except.ok.inj (haverage.symm.trans hy)
  rw [hproduct] at hv
  refine ⟨hs, ht, haverage, u, w, v, hu, hw, hv, ?_, ?_⟩
  · have h := hcells 0 (by decide)
    by_contra hne
    rw [if_neg hne] at h
    cases h
  · have h := hcells 1 (by decide)
    split at h
    · cases h
    · exact (Extended.number.inj h).symm

end Average

end Remap

end Regrid

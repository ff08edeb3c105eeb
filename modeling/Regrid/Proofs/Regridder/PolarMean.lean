import Regrid.Proofs.Field.Polar
import Regrid.Proofs.Regridder.Missing
import Regrid.Proofs.Remap.PolarMean

/-!
# Polar means of regridded fields

A regridder gives the cells of a polar row the plain mean of their values (`mean_polar_rows`), and
the averages of a remap (`Hntr.regrid`) give them the mean weighted by what was accumulated. The
cells of a target row all accumulate the same (`accumulate_ones`), so for a field without gaps the
two means are one, and so are the two ways to regrid it (`values_eq_averageField_polarMean`). This
holds for all offsets of the two grids, also where the sweep begins east of a target cell: a row of
the operator sums to one in any case.
-/

namespace Regrid

open Extended (number)

/-! ## Regridders -/

namespace SparseMatrix

variable {m : SparseMatrix Rat} {x : Array Rat}

/-- What a matrix makes of the numbers of a field. -/
theorem times_map_number (h : m.InBounds) (x : Array Rat) :
    m.extended.times (x.map number) =
      tabulated m.rows fun row => number (m.mulVec (fun a => x.getD a 0) row) :=
  eq_tabulated (size_times ..) fun _ hr => getD_times_extended h _ hr

/-- **A field without gaps** is summed, whether missing values are skipped or not, if the whole
weight of every row is one. -/
theorem applyToStack_full (h : m.InBounds) (hone : ∀ row, row < m.rows → m.weight row = 1)
    (skipMissing : Bool) (threshold : Extended) (x : Array Rat) :
    m.extended.applyToStack ⟨skipMissing, some m.extended.rowSums.values, threshold⟩
        [x.map number] =
      .ok [tabulated m.rows fun row => number (m.mulVec (fun a => x.getD a 0) row)] := by
  have htotals : m.extended.rowSums.values = tabulated m.rows fun _ => number 1 := by
    rw [rowSums_eq_tabulated h]
    exact tabulated_congr fun row hr => by rw [hone row hr]
  have hfull : ([x.map number].any fun y => y.any Scalar.isNaN) = false := by
    have hnone : ((x.map number).any Scalar.isNaN) = false := by
      rw [Array.any_map]
      exact Array.any_eq_false.mpr fun _ _ => Bool.false_ne_true
    rw [List.any_cons, hnone]
    rfl
  unfold applyToStack
  cases skipMissing with
  | false => exact congrArg (fun y => Except.ok [y]) (times_map_number h x)
  | true =>
    have hextent : commonExtent m.extended.rows (tabulated m.rows fun _ => number 1).size =
        .ok m.rows := by
      rw [size_tabulated]
      exact if_pos (Or.inl rfl)
    have hquotient : (tabulated m.rows fun row =>
        number (m.mulVec (fun a => x.getD a 0) row) / number 1) =
        tabulated m.rows fun row => number (m.mulVec (fun a => x.getD a 0) row) :=
      tabulated_congr fun row _ => by rw [Extended.number_div one_ne_zero, div_one]
    simp only [Bool.not_true, Bool.false_eq_true, if_false, hfull, htotals, hextent]
    rw [List.mapM_cons, times_map_number h, combine_tabulated, hquotient]
    rfl

end SparseMatrix

namespace Regridder

variable [RationalAngles]

/-- **The values of a field without gaps** are what the matrix makes of it, with polar means where
they are wished. -/
theorem ofMatrix_values_full {m : SparseMatrix Rat} (h : m.InBounds)
    (hone : ∀ row, row < m.rows → m.weight row = 1) (grids : GridPair Extended)
    (hcols : grids.source.size = m.cols) (hrows : grids.target.size = m.rows)
    (options : RegridOptions Extended) (skipMissing polarMean : Bool) (threshold : Extended)
    {x : Array Rat} (hsize : x.size = grids.source.size) :
    (ofMatrix grids options m.extended).values ⟨skipMissing, threshold, polarMean⟩ ⟨id, id⟩
        ⟨grids.source.shape, x.map number⟩ =
      if polarMean then polarMeans ⟨id, id⟩ ⟨grids.target.shape,
        tabulated m.rows fun row => number (m.mulVec (fun a => x.getD a 0) row)⟩
      else .ok ⟨grids.target.shape,
        tabulated m.rows fun row => number (m.mulVec (fun a => x.getD a 0) row)⟩ := by
  have hstack := SparseMatrix.applyToStack_full h.sumDuplicates
    (fun row hr => (SparseMatrix.weight_sumDuplicates m row).trans (hone row hr)) skipMissing
    threshold x
  simp only [SparseMatrix.mulVec_sumDuplicates] at hstack
  rw [← SparseMatrix.sumDuplicates_extended] at hstack
  exact ofMatrix_values_of_stack grids hcols options ⟨skipMissing, threshold, polarMean⟩ rfl
    ((Array.size_map ..).trans hsize) hstack ((size_tabulated ..).trans hrows.symm)

end Regridder

/-! ## Averages of a remap -/

namespace Remap

/-- The weight that every cell of a target row accumulates from weights of one. -/
def rowWeight (r : Remap Rat) (j : Nat) : Rat :=
  r.target.band j * (r.source.columns / r.target.columns)

variable {r : Remap Rat} (hs : r.source.Partition) (ht : r.target.Partition)
include hs ht

theorem rowWeight_ne_zero {j : Nat} (hj : j < r.target.rows) : r.rowWeight j ≠ 0 := by
  have hm : (r.source.columns : Rat) ≠ 0 := by exact_mod_cast hs.columns_pos.ne'
  have hn : (r.target.columns : Rat) ≠ 0 := by exact_mod_cast ht.columns_pos.ne'
  exact mul_ne_zero (ht.band_pos hj).ne' (div_ne_zero hm hn)

/-- Every row of the operator sums to one, for all offsets. -/
theorem weight_unitOperator {b : Nat} (hb : b < r.target.size) : r.unitOperator.weight b = 1 :=
  (sum_dense_sources hs ht r.unitWeights hb).trans (getD_unitWeights hb)

/-- So the operator takes ones to ones. -/
theorem mulVec_ones {b : Nat} (hb : b < r.target.size) :
    r.unitOperator.mulVec (fun a => (Array.replicate r.source.size 1).getD a 0) b = 1 := by
  refine (Finset.sum_congr rfl fun a ha => ?_).trans (weight_unitOperator hs ht hb)
  have ha : a < r.source.size := Finset.mem_range.mp ha
  simp [Array.getD, ha]

/-- **All cells of a row accumulate the same weight**, and this weight times what the operator makes
of the field. -/
theorem accumulate_ones (x : Array Rat) {b : Nat} (hb : b < r.target.size) :
    (r.extended.accumulate ((Array.replicate r.source.size 1).map number) (x.map number)).1.getD
        b 0 = number (r.rowWeight (b / r.target.columns)) ∧
      (r.extended.accumulate ((Array.replicate r.source.size 1).map number) (x.map number)).2.getD
        b 0 = number (r.rowWeight (b / r.target.columns) *
          r.unitOperator.mulVec (fun a => x.getD a 0) b) := by
  have hfinite : ∀ a, a < r.source.size → (Array.replicate r.source.size (1 : Rat)).getD a 0 ≠ 0 →
      Scalar.isFinite ((x.map number).getD a 0) = true := fun a _ _ => by
    rw [Extended.getD_number]
    rfl
  obtain ⟨hweight, hvalue⟩ := accumulate_extended hs ht hfinite hb
  rw [sum_overlaps_eq hs ht hb fun a => (Array.replicate r.source.size (1 : Rat)).getD a 0,
    mulVec_ones hs ht hb, mul_one] at hweight
  rw [sum_overlaps_eq hs ht hb fun a => (Array.replicate r.source.size (1 : Rat)).getD a 0 *
    ((x.map number).getD a 0).toRat] at hvalue
  refine ⟨hweight, hvalue.trans (congrArg (fun v => number (r.rowWeight _ * v)) ?_)⟩
  refine Finset.sum_congr rfl fun a ha => ?_
  have ha : a < r.source.size := Finset.mem_range.mp ha
  have hone : (Array.replicate r.source.size (1 : Rat)).getD a 0 = 1 := by simp [Array.getD, ha]
  dsimp only
  rw [hone, one_mul, Extended.getD_number]
  rfl

/-- **Averages with polar means** of a field without gaps, under weights of one. -/
theorem averages_ones (x : Array Rat) (missing : Extended) :
    r.extended.averages ((Array.replicate r.source.size 1).map number) (x.map number) missing true =
      tabulated r.target.size fun b => number (polarValue r.target.rows r.target.columns
        (r.unitOperator.mulVec fun a => x.getD a 0) b) := by
  have htarget : r.extended.target.size = r.target.size := r.target.size_extended
  refine eq_tabulated (d := 0) ((size_averages ..).trans htarget) fun b hb => ?_
  obtain ⟨j, i, hj, hi, rfl⟩ := Lattice.exists_cell hb
  have hcells (i : Nat) (hi : i < r.target.columns) := by
    have h := accumulate_ones hs ht x (Lattice.cell_lt_size hj hi)
    rwa [Lattice.div_cell hi] at h
  have hcolumns : r.extended.target.columns = r.target.columns := rfl
  have hrows : r.extended.target.rows = r.target.rows := r.target.rows_extended
  have hn : (r.target.columns : Rat) ≠ 0 := by exact_mod_cast ht.columns_pos.ne'
  obtain ⟨hweights, hvalues⟩ := r.extended.size_accumulate
    ((Array.replicate r.source.size 1).map number) (x.map number)
  rw [getD_averages_polarMean _ _ _ _ (hb.trans_eq htarget.symm), hcolumns, Lattice.div_cell hi,
    hrows, polarValue_cell _ j hi]
  have hweight := rowWeight_ne_zero hs ht hj
  split_ifs with hpolar
  · rw [rowTotal_number hj (hweights.trans htarget) fun i hi => (hcells i hi).1,
      rowTotal_number hj (hvalues.trans htarget) fun i hi => (hcells i hi).2, ← Finset.mul_sum,
      Finset.sum_const, Finset.card_range, nsmul_eq_mul, mul_comm (r.target.columns : Rat),
      quotientOr_scaled missing hweight, if_neg hn]
  · rw [getD_averages _ _ _ _ (hb.trans_eq htarget.symm), (hcells i hi).1, (hcells i hi).2,
      quotientOr_number, if_neg hweight, mul_div_cancel_left₀ _ hweight]

/-- So does averaging a field in its shape. -/
theorem averageField_ones {x : Array Rat} (hsize : x.size = r.source.size) (missing : Extended) :
    r.extended.averageField ⟨[r.source.rows, r.source.columns], Array.replicate r.source.size 1⟩
        ⟨[r.source.rows, r.source.columns], x.map number⟩ missing true =
      .ok ⟨[r.target.rows, r.target.columns], tabulated r.target.size fun b =>
        number (polarValue r.target.rows r.target.columns
          (r.unitOperator.mulVec fun a => x.getD a 0) b)⟩ := by
  have hsource : [r.source.rows, r.source.columns] =
      [r.extended.source.rows, r.extended.source.columns] :=
    congrArg (fun n => [n, r.source.columns]) r.source.rows_extended.symm
  have htarget : [r.extended.target.rows, r.extended.target.columns] =
      [r.target.rows, r.target.columns] :=
    congrArg (fun n => [n, r.target.columns]) r.target.rows_extended
  have hones : (Array.replicate r.source.size 1).map number = Array.replicate r.source.size 1 :=
    Array.map_replicate
  have hfinite : ∀ a, a < r.source.size → (Array.replicate r.source.size (1 : Rat)).getD a 0 ≠ 0 →
      Scalar.isFinite ((x.map number).getD a 0) = true := fun a _ _ => by
    rw [Extended.getD_number]
    rfl
  have haverage := average_extended Array.size_replicate ((Array.size_map ..).trans hsize) hfinite
    missing true
  rw [averages_ones hs ht x missing, hones] at haverage
  rw [← htarget]
  exact averageField_ok ⟨_, Array.replicate r.source.size 1⟩ ⟨_, x.map number⟩ hsource hsource
    haverage

end Remap

/-! ## The two ways -/

section Agreement

variable [RationalAngles] {p : GridPair Rat}

/-- **The plain mean of a polar row is its weighted mean.** A field without gaps comes out of a
regridder with polar means, whether it skips missing values or not, as it comes out of the averages
with polar means under weights of one. -/
theorem values_eq_averageField_polarMean (hs : p.source.lattice.Partition)
    (ht : p.target.lattice.Partition) (options : RegridOptions Extended) (skipMissing : Bool)
    (threshold : Extended) {field : Tensor Extended} (hshape : field.shape = p.source.shape)
    (hsize : field.values.size = p.source.size)
    (hfinite : ∀ v ∈ field.values, Scalar.isFinite v = true) (missing : Extended) :
    ∃ g y, Regridder.generate p.extended options none = .ok g ∧
      g.values ⟨skipMissing, threshold, true⟩ ⟨id, id⟩ field = .ok y ∧
      p.extended.remap.averageField ⟨field.shape, Array.replicate p.source.size 1⟩ field missing
        true = .ok y ∧
      y.shape = p.target.shape ∧ y.values.size = p.target.size := by
  have hsource : p.remap.source.size = p.source.size := p.source.size_lattice
  have htarget : p.remap.target.size = p.target.size := p.target.size_lattice
  obtain ⟨x, hx⟩ : ∃ x : Array Rat, field.values = x.map number := by
    refine ⟨field.values.map Extended.toRat, ?_⟩
    rw [Array.map_map]
    exact (Array.map_id _).symm.trans
      (Array.map_congr_left fun v hv => Extended.isFinite_iff.mp (hfinite v hv))
  obtain ⟨shape, values⟩ := field
  dsimp only at hshape hsize hx ⊢
  subst hshape hx
  rw [Array.size_map] at hsize
  have hsourceShape : [p.remap.source.rows, p.remap.source.columns] = p.source.shape :=
    p.source.shape_lattice
  have htargetShape : [p.remap.target.rows, p.remap.target.columns] = p.target.shape :=
    p.target.shape_lattice
  have haverage := Remap.averageField_ones hs ht (hsize.trans hsource.symm) missing
  rw [← p.remap_extended, hsourceShape, htargetShape, hsource] at haverage
  have hpolar := polarMeans_numbers (p.remap.unitOperator.mulVec fun a => x.getD a 0)
    ht.rows_pos ht.columns_pos
  have hvalues := Regridder.ofMatrix_values_full (Remap.operator_inBounds hs ht _)
    (fun _ hb => Remap.weight_unitOperator hs ht hb) p.extended hsource.symm htarget.symm options
    skipMissing true threshold hsize
  rw [if_pos rfl] at hvalues
  refine ⟨_, _, Regridder.generate_extended hs ht options, hvalues.trans ?_, haverage, rfl,
    (size_tabulated ..).trans htarget⟩
  rw [← htargetShape]
  exact (congrArg (polarMeans _) (congrArg (Tensor.mk · _) htargetShape.symm)).trans hpolar

end Agreement

section Examples

attribute [local instance] smallAngles

/-- Six values on one row. -/
def oneToSix : Tensor Extended :=
  ⟨[1, 6], #[.number 1, .number 2, .number 3, .number 4, .number 5, .number 6]⟩

/-- Also a target too far west gets one mean both ways. -/
theorem values_eq_averageField_polarMean_farWest :
    farWest.source.lattice.Partition ∧ farWest.target.lattice.Partition ∧
    (∀ v ∈ oneToSix.values, Scalar.isFinite v = true) ∧
    ∃ g y, Regridder.generate farWest.extended ⟨false, 0, true⟩ none = .ok g ∧
      g.values ⟨true, 1, true⟩ ⟨id, id⟩ oneToSix = .ok y ∧
      farWest.extended.remap.averageField ⟨oneToSix.shape, Array.replicate farWest.source.size 1⟩
        oneToSix (.number (-9)) true = .ok y ∧
      y.values = #[.number (7 / 2), .number (7 / 2)] := by
  have hs : farWest.source.lattice.Partition := by decide +kernel
  have ht : farWest.target.lattice.Partition := by decide +kernel
  have hfinite : ∀ v ∈ oneToSix.values, Scalar.isFinite v = true := by
    simp [oneToSix, Scalar.isFinite]
  obtain ⟨g, y, hg, hy, hz, -⟩ := values_eq_averageField_polarMean hs ht ⟨false, 0, true⟩ true 1
    (show oneToSix.shape = _ from rfl) rfl hfinite (.number (-9))
  have hmean : (farWest.extended.remap.averageField
      ⟨oneToSix.shape, Array.replicate farWest.source.size 1⟩ oneToSix (.number (-9))
      true).toOption.map Tensor.values = some #[.number (7 / 2), .number (7 / 2)] := by
    decide +kernel
  rw [hz] at hmean
  exact ⟨hs, ht, hfinite, g, y, hg, hy, hz, Option.some.inj hmean⟩

end Examples

end Regrid

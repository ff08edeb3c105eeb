import Regrid.Proofs.Field.Stack
import Regrid.Proofs.LatLon.Extended
import Regrid.Proofs.Remap.Average
import Regrid.Regridder.Basic

/-!
# Fields with gaps, regridded and averaged

There are two ways to take a field with gaps to another grid: a regridder that skips missing values
(`skipna`), which divides products of sparse matrices, and the averages of a remap whose weights are
one where a value is there, which accumulate overlaps. They give the same field, with no number in
the one where the other one writes the missing value (`values_eq_averageField`).

A regridder takes averages because its weights are never negative (`unitOperator_stochastic`). They
are if the sweep around the circle begins east of a target cell, and then it can lose values that
are there (`values_lost_west`).
-/

namespace Regrid

open Extended (number)

/-! ## Regridders -/

namespace Remap

variable {r : Remap Rat}

/-- **A remap takes averages**, if the sweep around the circle begins west of the target. -/
theorem unitOperator_stochastic (hs : r.source.Partition) (ht : r.target.Partition)
    (hstart : r.StartsWest) : r.unitOperator.Stochastic where
  inBounds := operator_inBounds hs ht r.unitWeights
  nonneg _ _ := dense_nonneg hs ht hstart
  sum_row _ hb := (sum_dense_sources hs ht r.unitWeights hb).trans (getD_unitWeights hb)

end Remap

namespace Regridder

/-- A regridder makes of a field what its merged weights make of it. -/
theorem ofMatrix_values_of_stack {α : Type} [Trigonometry α] {m : SparseMatrix α}
    (grids : GridPair α) (hcols : grids.source.size = m.cols) (options o : RegridOptions α)
    {field : Tensor α} (hshape : field.shape = grids.source.shape)
    (hsize : field.values.size = grids.source.size) {y : Array α}
    (hy : m.sumDuplicates.applyToStack
      ⟨o.skipMissing, some m.sumDuplicates.rowSums.values, o.threshold⟩ [field.values] = .ok [y])
    (hysize : y.size = grids.target.size) :
    (ofMatrix grids options m).values o ⟨id, id⟩ field =
      if o.polarMean then polarMeans ⟨id, id⟩ ⟨grids.target.shape, y⟩
      else .ok ⟨grids.target.shape, y⟩ := by
  have hroom : y.size = Tensor.extent grids.target.shape := by
    rw [hysize, LatLon.size, Nat.mul_comm]
    exact congrArg (· * grids.target.columns) (Nat.one_mul _).symm
  rw [← SparseMatrix.sumDuplicates_idem m] at hy
  have happly := applyWeights_field (m := m.sumDuplicates) hshape ((Nat.mul_comm ..).trans hcols)
    (hsize.trans hcols) hy hroom
  rw [SparseMatrix.sumDuplicates_idem] at happly
  exact regridStack_exact o.polarMean happly

variable [RationalAngles]

/-- **A regridder takes averages over the values that are there**, if all of the weight of a cell
may be missing and the matrix takes averages. -/
theorem ofMatrix_values {m : SparseMatrix Rat} (h : m.Stochastic) (grids : GridPair Extended)
    (hcols : grids.source.size = m.cols) (hrows : grids.target.size = m.rows)
    (options : RegridOptions Extended) {field : Tensor Extended}
    (hshape : field.shape = grids.source.shape) (hsize : field.values.size = grids.source.size)
    (hfield : HasNumbers field.values) :
    ∃ y, (ofMatrix grids options m.extended).values ⟨true, 1, false⟩ ⟨id, id⟩ field =
        .ok ⟨grids.target.shape, y⟩ ∧ y.size = grids.target.size ∧
      ∀ b, b < grids.target.size → y.getD b 0 = m.meanOr .undefined field.values b := by
  have hmerged := h.sumDuplicates
  have htotals : ∀ b, b < m.rows →
      m.sumDuplicates.extended.rowSums.values.getD b 0 = (1 : Extended) := fun b hb => by
    rw [SparseMatrix.getD_rowSums_extended (m := m.sumDuplicates) hb,
      SparseMatrix.getD_rowSums hmerged.inBounds hb, hmerged.sum_row b hb]
    rfl
  have hlength : m.sumDuplicates.extended.rowSums.values.size = m.rows :=
    SparseMatrix.size_bucketSums _ _
  obtain ⟨y, hy, hysize, hvalue⟩ := SparseMatrix.applyToStack_extended hmerged hfield hlength
    htotals (hsize.trans hcols)
  rw [← SparseMatrix.sumDuplicates_extended] at hy
  refine ⟨y, ofMatrix_values_of_stack grids hcols options _ hshape hsize hy
    (hysize.trans hrows.symm), hysize.trans hrows.symm, fun b hb => ?_⟩
  exact (hvalue b (hb.trans_eq hrows)).trans
    (congrFun (SparseMatrix.meanOr_sumDuplicates m field.values .undefined) b)

/-- The regridder of two grids of numbers has the weights of their remap. -/
theorem generate_extended {p : GridPair Rat} (hs : p.source.lattice.Partition)
    (ht : p.target.lattice.Partition) (options : RegridOptions Extended) :
    generate p.extended options none =
      .ok (ofMatrix p.extended options p.remap.unitOperator.extended) := by
  rw [← Remap.unitOperator_extended hs ht, ← p.remap_extended]
  rfl

end Regridder

/-! ## Averages of a remap -/

namespace Remap

theorem averageField_ok {α : Type} [Scalar α] {r : Remap α} (weights values : Tensor α)
    (hweights : weights.shape = [r.source.rows, r.source.columns])
    (hvalues : values.shape = [r.source.rows, r.source.columns]) {missing : α} {polarMean : Bool}
    {y : Array α} (hy : r.average weights.values values.values none missing polarMean = .ok y) :
    r.averageField weights values missing polarMean =
      .ok ⟨[r.target.rows, r.target.columns], y⟩ := by
  unfold averageField
  simp [hweights, hvalues, hy]

variable {r : Remap Rat} (hs : r.source.Partition) (ht : r.target.Partition)
include hs ht

/-- **Averages of a field with gaps**, if what is there has a weight of one and what is missing has
none. -/
theorem averageField_presence {field : Tensor Extended}
    (hshape : field.shape = [r.source.rows, r.source.columns])
    (hsize : field.values.size = r.source.size) (hfield : HasNumbers field.values)
    (missing : Extended) :
    ∃ z, r.extended.averageField ⟨field.shape, presence field.values⟩ field missing false =
        .ok ⟨[r.target.rows, r.target.columns], z⟩ ∧ z.size = r.target.size ∧
      ∀ b, b < r.target.size → z.getD b 0 = r.unitOperator.meanOr missing field.values b := by
  have hshape' : field.shape = [r.extended.source.rows, r.extended.source.columns] :=
    hshape.trans (congrArg (fun n => [n, r.source.columns]) r.source.rows_extended.symm)
  have hsize' : (field.values.map Extended.present).size = r.source.size := by
    rw [Array.size_map, hsize]
  have hfinite : ∀ a, a < r.source.size → (field.values.map Extended.present).getD a 0 ≠ 0 →
      Scalar.isFinite (field.values.getD a 0) = true := by
    intro a ha hne
    rw [getD_present (ha.trans_eq hsize.symm), Ne, Extended.present_eq_zero] at hne
    rw [Array.getD_eq_getD_getElem?, Array.getElem?_eq_getElem (ha.trans_eq hsize.symm),
      Option.getD_some] at hne ⊢
    exact (hfield _ (Array.getElem_mem _)).resolve_left hne
  have haverage := average_extended hsize' hsize hfinite missing false
  rw [← presence_eq] at haverage
  have hresult := averageField_ok ⟨field.shape, presence field.values⟩ field hshape' hshape'
    haverage
  have htarget : [r.extended.target.rows, r.extended.target.columns] =
      [r.target.rows, r.target.columns] :=
    congrArg (fun n => [n, r.target.columns]) r.target.rows_extended
  rw [htarget] at hresult
  refine ⟨_, hresult, ?_, fun b hb => ?_⟩
  · exact (size_averages ..).trans r.target.size_extended
  · rw [presence_eq, getD_averages_extended hs ht hfinite missing hb]
    simp only [getD_present_mul]
    rfl

/-- **Nothing is there for a target cell** just if all is missing that overlaps it. -/
theorem presentWeight_eq_zero_iff (hstart : r.StartsWest) {x : Array Extended}
    (hsize : x.size = r.source.size) {b : Nat} (hb : b < r.target.size) :
    r.unitOperator.presentWeight x b = 0 ↔ ∀ a, a < r.source.size →
      ¬ Disjoint (r.target.interior b) (r.source.interior a) →
        Scalar.isNaN (x.getD a 0) = true := by
  refine (mulVec_eq_zero_iff hs ht hstart (fun a _ => getD_present_nonneg x a) hb).trans ?_
  refine forall_congr' fun a => forall_congr' fun ha => ?_
  rw [getD_present (ha.trans_eq hsize.symm), Extended.present_eq_zero]

end Remap

/-! ## The two ways -/

section Agreement

variable [RationalAngles] {p : GridPair Rat} (hs : p.source.lattice.Partition)
  (ht : p.target.lattice.Partition) (hstart : p.remap.StartsWest)
include hs ht hstart

/-- **Skipping missing values is averaging with a weight of one for what is there.** The regridder
writes no number exactly where the average is the missing value, unless this is also an average of
the field, and that is where everything is missing that overlaps the target cell. -/
theorem values_eq_averageField (options : RegridOptions Extended) {field : Tensor Extended}
    (hshape : field.shape = p.source.shape) (hsize : field.values.size = p.source.size)
    (hfield : HasNumbers field.values) (missing : Extended) :
    ∃ g y z, Regridder.generate p.extended options none = .ok g ∧
      g.values ⟨true, 1, false⟩ ⟨id, id⟩ field = .ok y ∧
      p.extended.remap.averageField ⟨field.shape, presence field.values⟩ field missing false =
        .ok z ∧
      y.shape = p.target.shape ∧ y.values.size = p.target.size ∧
      z = y.map (Extended.orMissing · missing) ∧
      ((∀ v ∈ y.values, Scalar.isNaN v = true ∨ v ≠ missing) → ∀ b, b < p.target.size →
        (Scalar.isNaN (y.values.getD b 0) = true ↔ z.values.getD b 0 = missing)) ∧
      ∀ b, b < p.target.size → (Scalar.isNaN (y.values.getD b 0) = true ↔
        ∀ a, a < p.source.size →
          ¬ Disjoint (p.target.lattice.interior b) (p.source.lattice.interior a) →
            Scalar.isNaN (field.values.getD a 0) = true) := by
  have hsource : p.remap.source.size = p.source.size := p.source.size_lattice
  have htarget : p.remap.target.size = p.target.size := p.target.size_lattice
  obtain ⟨y, hy, hysize, hvalue⟩ := Regridder.ofMatrix_values
    (Remap.unitOperator_stochastic hs ht hstart) p.extended hsource.symm htarget.symm options hshape
    hsize hfield
  obtain ⟨z, hz, hzsize, hmean⟩ := Remap.averageField_presence hs ht
    (hshape.trans p.source.shape_lattice.symm) (hsize.trans hsource.symm) hfield missing
  rw [← p.remap_extended] at hz
  have hsame : ∀ b, b < p.target.size → z.getD b 0 = (y.getD b 0).orMissing missing := by
    intro b hb
    rw [hmean b (hb.trans_eq htarget.symm), hvalue b hb, SparseMatrix.meanOr_eq_orMissing]
  have hmap : z = y.map (Extended.orMissing · missing) := by
    refine Array.ext (by rw [Array.size_map, hzsize, hysize]; exact htarget) fun b hb hb' => ?_
    have hcell := hsame b (hb.trans_eq (hzsize.trans htarget))
    rw [Array.size_map] at hb'
    simpa [Array.getD, hb, hb'] using hcell
  have hshapes : [p.remap.target.rows, p.remap.target.columns] = p.target.shape :=
    p.target.shape_lattice
  refine ⟨_, _, _, Regridder.generate_extended hs ht options, hy, hz, rfl, hysize, ?_,
    fun hout b hb => ?_, fun b hb => ?_⟩
  · rw [hmap, hshapes]
    rfl
  · have hmem : y.getD b 0 ∈ y := by
      rw [Array.getD_eq_getD_getElem?, Array.getElem?_eq_getElem (hb.trans_eq hysize.symm),
        Option.getD_some]
      exact Array.getElem_mem _
    rw [hsame b hb]
    exact (Extended.orMissing_eq_missing (hout _ hmem)).symm
  · rw [hvalue b hb, SparseMatrix.isNaN_meanOr, ← hsource]
    exact Remap.presentWeight_eq_zero_iff hs ht hstart (hsize.trans hsource.symm)
      (hb.trans_eq htarget.symm)

end Agreement

/-! ## Two grids of small angles -/

/-- Angles with the sine of a small angle. -/
abbrev smallAngles : RationalAngles := ⟨3, id, id, fun q _ => q⟩

section Examples

attribute [local instance] smallAngles

/-- Two rows of two cells, to the same columns without the equator. -/
def acrossEquator : GridPair Rat := ⟨⟨2, 2, 0, 5400, 1⟩, ⟨2, 1, 0, 10800, 1⟩⟩

/-- A field of which the western half is missing. -/
def eastOnly : Tensor Extended := ⟨[2, 2], #[.undefined, .number 1, .undefined, .number 3]⟩

/-- The western cell is missing, the eastern one is the mean of its two. -/
theorem values_eq_averageField_eastOnly :
    acrossEquator.source.lattice.Partition ∧ acrossEquator.target.lattice.Partition ∧
    acrossEquator.remap.StartsWest ∧ HasNumbers eastOnly.values ∧
    ∃ g y z, Regridder.generate acrossEquator.extended ⟨false, 0, false⟩ none = .ok g ∧
      g.values ⟨true, 1, false⟩ ⟨id, id⟩ eastOnly = .ok y ∧
      acrossEquator.extended.remap.averageField ⟨eastOnly.shape, presence eastOnly.values⟩ eastOnly
        (.number (-9)) false = .ok z ∧
      y.values = #[.undefined, .number 2] ∧ z.values = #[.number (-9), .number 2] := by
  have hs : acrossEquator.source.lattice.Partition := by decide +kernel
  have ht : acrossEquator.target.lattice.Partition := by decide +kernel
  have hstart : acrossEquator.remap.StartsWest := by decide +kernel
  have hfield : HasNumbers eastOnly.values := by
    simp [HasNumbers, eastOnly, Scalar.isNaN, Scalar.isFinite]
  obtain ⟨g, y, z, hg, hy, hz, -, -, hsame, -⟩ := values_eq_averageField hs ht hstart
    ⟨false, 0, false⟩ (show eastOnly.shape = _ from rfl) rfl hfield (.number (-9))
  -- the averages with no number for a missing value are the values themselves
  obtain ⟨g', y', z', hg', hy', hz', -, -, hsame', -⟩ := values_eq_averageField hs ht hstart
    ⟨false, 0, false⟩ (show eastOnly.shape = _ from rfl) rfl hfield .undefined
  obtain rfl := Except.ok.inj (hg.symm.trans hg')
  obtain rfl := Except.ok.inj (hy.symm.trans hy')
  have hmean : (acrossEquator.extended.remap.averageField
      ⟨eastOnly.shape, presence eastOnly.values⟩ eastOnly .undefined false).toOption.map
      Tensor.values = some #[.undefined, .number 2] := by decide +kernel
  have hvalues : y.values = #[.undefined, .number 2] := by
    rw [hz', hsame'] at hmean
    simpa [Tensor.map, Except.toOption, Extended.orMissing_undefined] using hmean
  refine ⟨hs, ht, hstart, hfield, g, y, z, hg, hy, hz, hvalues, ?_⟩
  rw [hsame, Tensor.map, hvalues]
  show #[.undefined, .number 2].map (Extended.orMissing · (.number (-9))) = _
  decide +kernel

/-- Six columns of one row, to two columns that begin four of them west of the date line. -/
def farWest : GridPair Rat := ⟨⟨6, 1, 0, 10800, 1⟩, ⟨2, 1, -4, 10800, 1⟩⟩

/-- Two values a half turn apart. -/
def opposite : Tensor Extended :=
  ⟨[1, 6], #[.number 5, .undefined, .undefined, .number 5, .undefined, .undefined]⟩

/-- **Values that are there can be lost**, if the target lies too far west: the average of the
second cell is that of the value under it, and the regridder writes no number. -/
theorem values_lost_west :
    farWest.source.lattice.Partition ∧ farWest.target.lattice.Partition ∧
    HasNumbers opposite.values ∧
    ∃ g y z, Regridder.generate farWest.extended ⟨false, 0, false⟩ none = .ok g ∧
      g.values ⟨true, 1, false⟩ ⟨id, id⟩ opposite = .ok y ∧
      farWest.extended.remap.averageField ⟨opposite.shape, presence opposite.values⟩ opposite
        (.number (-9)) false = .ok z ∧
      y.values = #[.number 5, .undefined] ∧ z.values = #[.number 5, .number 5] := by
  have hs : farWest.source.lattice.Partition := by decide +kernel
  have ht : farWest.target.lattice.Partition := by decide +kernel
  have hfield : HasNumbers opposite.values := by
    simp [HasNumbers, opposite, Scalar.isNaN, Scalar.isFinite]
  have hentries : farWest.remap.unitOperator.entries =
      [⟨0, 0, 1⟩, ⟨1, 0, 4/3⟩, ⟨1, 1, 1/3⟩, ⟨1, 2, 1/3⟩, ⟨1, 3, 1/3⟩, ⟨1, 4, 1/3⟩, ⟨1, 5, 1/3⟩,
        ⟨1, 0, -2⟩] := by decide +kernel
  -- the first and the last entry of row 1 share a coordinate, as the sweep comes around the circle
  have hmerged : farWest.remap.unitOperator.extended.sumDuplicates =
      SparseMatrix.extended ⟨2, 6, [⟨0, 0, 1⟩, ⟨1, 0, -2/3⟩, ⟨1, 1, 1/3⟩, ⟨1, 2, 1/3⟩, ⟨1, 3, 1/3⟩,
        ⟨1, 4, 1/3⟩, ⟨1, 5, 1/3⟩]⟩ := by
    rw [SparseMatrix.sumDuplicates_extended, SparseMatrix.sumDuplicates, hentries]
    refine congrArg (fun entries => SparseMatrix.extended ⟨2, 6, entries⟩) ?_
    norm_num [SparseMatrix.mergedEntries, List.mergeSort, SparseMatrix.coordinateLE, sumRuns,
      sumRunsFrom]
  have hvalues := Regridder.ofMatrix_values_of_stack farWest.extended
    (m := farWest.remap.unitOperator.extended) rfl ⟨false, 0, false⟩ ⟨true, 1, false⟩
    (show opposite.shape = _ from rfl) rfl (y := #[.number 5, .undefined])
    (by rw [hmerged]; exact eq_ok_of_toOption (by decide +kernel)) rfl
  have hmean : (farWest.extended.remap.averageField ⟨opposite.shape, presence opposite.values⟩
      opposite (.number (-9)) false).toOption.map Tensor.values =
      some #[.number 5, .number 5] := by decide +kernel
  obtain ⟨z, hz, hzvalues⟩ := Option.map_eq_some_iff.mp hmean
  exact ⟨hs, ht, hfield, _, _, z, Regridder.generate_extended hs ht _, hvalues,
    eq_ok_of_toOption hz, rfl, hzvalues⟩

end Examples

end Regrid

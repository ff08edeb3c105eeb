import Regrid.Proofs.LatLon.Refinement
import Regrid.Proofs.Remap.Intersection
import Regrid.Proofs.Sparse.Product

/-!
# Remapping by way of a third lattice

Two operators in a row multiply. If the lattice between them refines the source or the target,
nothing is smeared out on the way: the product is the operator of the direct remap
(`build_composed`).

A product sums over the cells in the middle, and an element of an operator is a product of what
bands and what arcs have in common, so the sum comes apart into one over bands and one over columns
(`sum_dense_mul`). Each of them is what the source and the target have in common.
-/

namespace Regrid

namespace Remap

variable {source middle target : Lattice Rat}

section Unit

variable {r : Remap Rat} (hs : r.source.Partition) (ht : r.target.Partition)
  (hstart : r.StartsWest)
include hs ht hstart

/-- An element of the default operator is the part of the target band times the part of the target
arc that lie in the source cell. -/
theorem dense_unit {j i k l : Nat} (hj : j < r.target.rows) (hi : i < r.target.columns)
    (hk : k < r.source.rows) (hl : l < r.source.columns) :
    r.unitOperator.dense (j * r.target.columns + i) (k * r.source.columns + l) =
      common (r.target.edge j) (r.target.edge (j + 1)) (r.source.edge k) (r.source.edge (k + 1))
          / r.target.band j
        * (arcCommon (r.target.meridian i) (r.target.meridian (i + 1)) (r.source.meridian l)
          (r.source.meridian (l + 1)) / (1 / r.target.columns)) := by
  have hdense := dense_eq_common hs ht hstart r.unitWeights hj hi hk hl
  rw [getD_unitWeights (Lattice.cell_lt_size hj hi), one_mul] at hdense
  rw [div_div_eq_mul_div, div_one, mul_comm (arcCommon _ _ _ _)]
  exact hdense

end Unit

variable (hs : source.Partition) (hm : middle.Partition) (ht : target.Partition)
include hs hm ht

/-- **Through the middle**: a product of default operators sums over the bands and over the columns
in the middle. -/
theorem sum_dense_mul (hfirst : (Remap.mk source middle).StartsWest)
    (hsecond : (Remap.mk middle target).StartsWest) {j i k l : Nat} (hj : j < target.rows)
    (hi : i < target.columns) (hk : k < source.rows) (hl : l < source.columns) :
    ∑ b ∈ Finset.range middle.size,
        (Remap.mk middle target).unitOperator.dense (j * target.columns + i) b
          * (Remap.mk source middle).unitOperator.dense b (k * source.columns + l) =
      (∑ p ∈ Finset.range middle.rows,
          common (target.edge j) (target.edge (j + 1)) (middle.edge p) (middle.edge (p + 1))
            * (common (middle.edge p) (middle.edge (p + 1)) (source.edge k) (source.edge (k + 1))
              / middle.band p)) / target.band j
        * ((∑ q ∈ Finset.range middle.columns,
            arcCommon (target.meridian i) (target.meridian (i + 1)) (middle.meridian q)
                (middle.meridian (q + 1))
              * (arcCommon (middle.meridian q) (middle.meridian (q + 1)) (source.meridian l)
                (source.meridian (l + 1)) / (1 / middle.columns))) / (1 / target.columns)) := by
  rw [Lattice.size, sum_range_mul, div_mul_div_comm, Finset.sum_mul_sum, Finset.sum_div]
  refine Finset.sum_congr rfl fun p hp => ?_
  rw [Finset.sum_div]
  refine Finset.sum_congr rfl fun q hq => ?_
  rw [Finset.mem_range] at hp hq
  rw [dense_unit (r := ⟨middle, target⟩) hm ht hsecond hj hi hp hq,
    dense_unit (r := ⟨source, middle⟩) hs hm hfirst hp hq hk hl]
  simp only
  ring

/-- **A refining lattice in the middle changes nothing**: the product of the operators by way of it
is the operator of the direct remap. -/
theorem build_composed (hsource : source.WithinTurn) (hmiddle : middle.WithinTurn)
    (htarget : target.WithinTurn) (h : middle.Refines source ∨ middle.Refines target) :
    ∃ u v w d, Remap.build ⟨source, middle⟩ {} = .ok (u, []) ∧
      Remap.build ⟨middle, target⟩ {} = .ok (v, []) ∧
      Remap.build ⟨source, target⟩ {} = .ok (d, []) ∧
      v.multiply u = .ok w ∧ w.rows = d.rows ∧ w.cols = d.cols ∧
      ∀ c, c < d.rows → ∀ a, a < d.cols → w.dense c a = d.dense c a := by
  have hfirst := startsWest_of_withinTurn (r := ⟨source, middle⟩) hs.columns_pos hsource hmiddle
  have hsecond := startsWest_of_withinTurn (r := ⟨middle, target⟩) hm.columns_pos hmiddle htarget
  have hdirect := startsWest_of_withinTurn (r := ⟨source, target⟩) hs.columns_pos hsource htarget
  have hbounds := operator_inBounds (r := ⟨middle, target⟩) hm ht (unitWeights ⟨middle, target⟩)
  have hbounds' := operator_inBounds (r := ⟨source, middle⟩) hs hm (unitWeights ⟨source, middle⟩)
  obtain ⟨w, hw⟩ : ∃ w, (unitOperator ⟨middle, target⟩).multiply (unitOperator ⟨source, middle⟩) =
      .ok w := ⟨_, if_pos rfl⟩
  obtain ⟨hrows, hcols, -⟩ := SparseMatrix.multiply_inBounds hbounds' hw
  refine ⟨_, _, w, _, build_default (r := ⟨_, _⟩) hm, build_default (r := ⟨_, _⟩) ht,
    build_default (r := ⟨_, _⟩) ht, hw, hrows, hcols, fun c hc a ha => ?_⟩
  obtain ⟨j, i, hj, hi, rfl⟩ := Lattice.exists_cell (l := target) hc
  obtain ⟨k, l, hk, hl, rfl⟩ := Lattice.exists_cell (l := source) ha
  refine (SparseMatrix.dense_multiply hbounds hw _ _).trans ?_
  refine (sum_dense_mul hs hm ht hfirst hsecond hj hi hk hl).trans ?_
  rw [dense_unit (r := ⟨source, target⟩) hs ht hdirect hj hi hk hl,
    Lattice.sum_bands_through hm h hs ht hj hk, Lattice.sum_columns_through hm h hi hl]

omit hs hm ht in
/-- The eastern and the western hemisphere, by way of eighths of the sphere, to the northern and the
southern one. -/
theorem build_composed_eighths :
    Lattice.Partition ⟨2, 1, #[-1, 1]⟩ ∧ Lattice.Partition ⟨4, 0, #[-1, 0, 1]⟩ ∧
    Lattice.Partition ⟨1, 0, #[-1, 0, 1]⟩ ∧
    ∃ u v w, Remap.build (α := Rat) ⟨⟨2, 1, #[-1, 1]⟩, ⟨4, 0, #[-1, 0, 1]⟩⟩ {} = .ok (u, []) ∧
      Remap.build ⟨⟨4, 0, #[-1, 0, 1]⟩, ⟨1, 0, #[-1, 0, 1]⟩⟩ {} = .ok (v, []) ∧
      v.multiply u = .ok w ∧ w.dense 0 0 = 1 / 2 ∧ w.dense 1 1 = 1 / 2 := by
  have hs : Lattice.Partition ⟨2, 1, #[-1, 1]⟩ := by decide +kernel
  have hm : Lattice.Partition ⟨4, 0, #[-1, 0, 1]⟩ := by decide +kernel
  have ht : Lattice.Partition ⟨1, 0, #[-1, 0, 1]⟩ := by decide +kernel
  have hrefines : Lattice.Refines ⟨4, 0, #[-1, 0, 1]⟩ ⟨2, 1, #[-1, 1]⟩ := by
    refine ⟨by decide +kernel, fun i (hi : i ≤ 2) => ?_⟩
    obtain rfl | rfl | rfl : i = 0 ∨ i = 1 ∨ i = 2 := by omega
    · exact ⟨2, by decide, 0, by decide +kernel⟩
    · exact ⟨4, by decide, 0, by decide +kernel⟩
    · exact ⟨2, by decide, 1, by decide +kernel⟩
  obtain ⟨u, v, w, d, hu, hv, hd, hw, -, -, hdense⟩ := build_composed hs hm ht
    (by decide +kernel) (by decide +kernel) (by decide +kernel) (.inl hrefines)
  obtain ⟨rfl, -⟩ := Prod.mk.inj (Except.ok.inj (hd.symm.trans (build_default (r := ⟨_, _⟩) ht)))
  refine ⟨hs, hm, ht, u, v, w, hu, hv, hw, ?_, ?_⟩
  · exact (hdense 0 (by decide) 0 (by decide)).trans (by decide +kernel)
  · exact (hdense 1 (by decide) 1 (by decide)).trans (by decide +kernel)

end Remap

end Regrid

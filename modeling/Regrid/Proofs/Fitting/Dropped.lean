import Regrid.Proofs.Fitting.Constraints
import Regrid.Proofs.Sparse.Starved

/-!
# Constraints that are kept when others are dropped

Dropping a constraint (`remove_small_constraints`) takes the columns of its basis functions out of
all constraints, but a basis function that some sheet interpolates stays a variable of the program.
So a constraint that is kept holds for the given operator up to what such basis functions contribute
(`kept_constraints_hold`), and it is the given one if there are none of them. With one it can be
missed by a vector that misses no constraint of the program (`kept_constraint_missed`).
-/

namespace Regrid

namespace FittingProblem

variable {α : Type}

/-- The constraints that are kept: all of them without a minimum. -/
def keptConstraints (constraints : SparseMatrix α) (minimum : Option Number) : SparseMatrix α :=
  minimum.elim constraints constraints.removeStarved

/-- The basis functions that no constraint involves, of those that are kept. -/
def unconstrained (constraints : SparseMatrix α) (minimum : Option Number) : Finset Nat :=
  {j ∈ Finset.range constraints.cols |
    j ∉ (keptConstraints constraints minimum).entries.map Entry.col}

/-- With or without a minimum, what is kept takes part. -/
theorem prepared_kept {constraints : SparseMatrix α} {pairs : List (GroupId × Sheet α)}
    (hC : constraints.InBounds)
    (hs : ∀ g ∈ lastValues pairs, g.2.Consistent constraints.rows constraints.cols)
    (minimum : Option Number) :
    Prepared constraints pairs minimum (keptConstraints constraints minimum)
      (lastValues pairs) := by
  cases minimum with
  | none => exact prepared_all hC hs
  | some n =>
    exact ⟨⟨keyed_lastValues _, SparseMatrix.removeStarved_inBounds hC n, hs⟩, rfl, rfl, rfl, rfl⟩

/-- A kept constraint is the given one without the basis functions that are in none. -/
theorem mulVec_kept (constraints : SparseMatrix Rat) (minimum : Option Number)
    (full : Nat → Rat) {i : Nat}
    (hi : i ∈ (keptConstraints constraints minimum).entries.map Entry.row) :
    constraints.mulVec full i = (keptConstraints constraints minimum).mulVec full i +
      ∑ j ∈ unconstrained constraints minimum, constraints.dense i j * full j := by
  cases minimum with
  | some n => exact constraints.mulVec_removeStarved n full hi
  | none =>
    have hzero : ∀ j ∈ unconstrained constraints none, constraints.dense i j * full j = 0 := by
      intro j hj
      have hj : j ∉ constraints.entries.map Entry.col := (Finset.mem_filter.mp hj).2
      rw [SparseMatrix.dense_eq, List.sum_eq_zero, zero_mul]
      intro v hv
      obtain ⟨e, he, rfl⟩ := List.mem_map.mp hv
      refine if_neg fun h => hj ?_
      rw [← h.2]
      exact List.mem_map_of_mem he
    rw [Finset.sum_eq_zero hzero, add_zero]
    rfl

variable {kept : SparseMatrix Rat} {sheets : List (GroupId × Sheet Rat)}

/-- A packed vector for all basis functions, zero at those that take no part. -/
theorem expand_zero {p : FittingProblem Rat} (hp : Assembled kept sheets p)
    {x : Array Rat} (hx : x.size = p.basis.size) : ∃ y, p.expand (Tensor.ofArray x) 0 = .ok y ∧
      ∀ j, j < kept.cols → y.values.getD j 0 =
        if j ∈ usedBasis kept sheets then x.getD (p.basis.index j) 0 else 0 := by
  have hnodup : p.basis.ids.toList.Nodup := by
    rw [hp.basis]
    exact nodup_ascending _
  have hfull : p.basis.full = kept.cols := by
    rw [hp.basis]
    rfl
  obtain ⟨ys, hys, -, hvalues⟩ := Packing.unpack_vector (p := p.basis) (v := Tensor.ofArray x)
    (congrArg (fun n => [n]) hx) hx hnodup hfull 0 0
  refine ⟨_, hys, fun j hj => (hvalues j hj).trans (if_congr ?_ rfl rfl)⟩
  rw [hp.basis]
  exact Packing.mem_used

/-- **Constraints that are kept hold** up to the basis functions that were dropped with others and
are interpolated. A vector that misses none of them gives the target of a coarse cell, and what
these contribute to the cell; without a contribution it gives the target. -/
theorem kept_constraints_hold {constraints : SparseMatrix Rat}
    {pairs : List (GroupId × Sheet Rat)} (hC : constraints.InBounds)
    (hs : ∀ g ∈ lastValues pairs, g.2.Consistent constraints.rows constraints.cols)
    {guess : Option (Tensor Rat)} {filling : Option Rat} {minimum : Option Number}
    {p : FittingProblem Rat} (hp : assemble constraints pairs guess filling minimum = .ok p)
    {x : Array Rat} (hx : x.size = p.basis.size)
    (hmissed : p.residual (Tensor.ofArray x) = .ok (Array.replicate p.coarse.size 0)) :
    ∃ y, p.expand (Tensor.ofArray x) 0 = .ok y ∧ ∀ i ∈ p.coarse.ids,
      constraints.mulVec (fun j => y.values.getD j 0) i =
          p.targets.values.getD (p.coarse.index i) 0 +
            ∑ j ∈ unconstrained constraints minimum, constraints.dense i j * y.values.getD j 0 ∧
      ((∀ g ∈ lastValues pairs, ∀ e ∈ g.2.interpolation.entries,
          e.col ∈ unconstrained constraints minimum → constraints.dense i e.col = 0) →
        constraints.mulVec (fun j => y.values.getD j 0) i =
          p.targets.values.getD (p.coarse.index i) 0) := by
  have hprep := prepared_kept hC hs minimum
  have h := hprep.toSheets
  have hparts := assembled_of_ok hprep hp
  obtain ⟨y, hy, hvalues⟩ := expand_zero hparts hx
  have hextends : Extends (keptConstraints constraints minimum) (lastValues pairs) x
      fun j => y.values.getD j 0 := by
    intro j hj
    refine (hvalues j (usedBasis_lt h hj)).trans ?_
    rw [if_pos hj, hparts.basis]
  obtain ⟨r, hr, hzero⟩ := residual_eq_zero_iff hparts h hx
  rw [hr] at hmissed
  have hholds := (hzero _ hextends).mp (Except.ok.inj hmissed)
  refine ⟨y, hy, fun i hi => ?_⟩
  have hi' : i ∈ (keptConstraints constraints minimum).entries.map Entry.row := by
    rw [hparts.coarse] at hi
    exact Packing.mem_used.mp hi
  have hsplit := mulVec_kept constraints minimum (fun j => y.values.getD j 0) hi'
  rw [hholds i hi', ← getD_targets hparts h hi] at hsplit
  refine ⟨hsplit, fun hnone => hsplit.trans ?_⟩
  have hlost : ∀ j ∈ unconstrained constraints minimum,
      constraints.dense i j * y.values.getD j 0 = 0 := by
    intro j hj
    obtain ⟨hcol, hout⟩ := Finset.mem_filter.mp hj
    rw [Finset.mem_range, hprep.cols_eq] at hcol
    rw [hvalues j hcol]
    split_ifs with hused
    · -- a basis function in no constraint takes part only in an interpolation
      obtain ⟨g, hg, hcolumn⟩ :=
        List.mem_flatMap.mp ((List.mem_append.mp hused).resolve_left hout)
      obtain ⟨e, he, rfl⟩ := List.mem_map.mp hcolumn
      rw [hnone g hg e he hj, zero_mul]
    · exact mul_zero _
  rw [Finset.sum_eq_zero hlost, add_zero]

/-- A sheet of three fine cells over two coarse ones. -/
def threeCells (interpolation : List (Entry Rat)) : List (GroupId × Sheet Rat) :=
  [(.text "s", {
      overlaps := ⟨2, 3, [⟨0, 0, 1⟩, ⟨1, 1, 1⟩, ⟨1, 2, 1⟩]⟩
      interpolation := ⟨3, 3, interpolation⟩
      field := ⟨[3], #[1, 3, 5]⟩
      areas := none })]

/-- Two constraints, of which the first has one basis function only. -/
def starvedFirst : SparseMatrix Rat :=
  ⟨2, 3, [⟨0, 0, 1⟩, ⟨1, 0, 1 / 2⟩, ⟨1, 1, 1 / 4⟩, ⟨1, 2, 1 / 4⟩]⟩

/-- Where the dropped basis function is not interpolated, the second constraint holds as it is. -/
theorem kept_constraints_hold_threeCells : ∃ p,
    assemble starvedFirst (threeCells [⟨1, 1, 1⟩, ⟨2, 2, 1⟩]) none none (some 2) = .ok p ∧
    p.residual (Tensor.ofArray #[6, 10]) = .ok #[0] ∧
    ∃ y, p.expand (Tensor.ofArray #[6, 10]) 0 = .ok y ∧
      starvedFirst.mulVec (fun j => y.values.getD j 0) 1 = 4 := by
  have hrun : (do
      let p ← assemble starvedFirst (threeCells [⟨1, 1, 1⟩, ⟨2, 2, 1⟩]) none none (some 2)
      let r ← p.residual (Tensor.ofArray #[6, 10])
      return (r, p.basis.size, p.coarse.ids, p.targets.values)) =
      .ok (#[0], 2, #[1], #[(4 : Rat)]) := eq_ok_of_toOption (by decide +kernel)
  obtain ⟨p, hp, hrun⟩ := bind_eq_ok.mp hrun
  obtain ⟨r, hr, hrun⟩ := bind_eq_ok.mp hrun
  obtain ⟨rfl, hbasis, hcoarse, htargets⟩ : r = #[0] ∧ p.basis.size = 2 ∧ p.coarse.ids = #[1] ∧
      p.targets.values = #[4] := by simpa [pure, Except.pure] using hrun
  have hsize : p.coarse.size = 1 := by rw [Packing.size, hcoarse]; rfl
  have hindex : p.coarse.index 1 = 0 := by rw [Packing.index, hcoarse]; rfl
  obtain ⟨y, hy, hholds⟩ := kept_constraints_hold (by decide) (by decide) hp
    (x := #[6, 10]) hbasis.symm (by rw [hr, hsize]; rfl)
  refine ⟨p, hp, hr, y, hy, ((hholds 1 (by simp [hcoarse])).2 ?_).trans ?_⟩
  · have hkept : (keptConstraints starvedFirst (some 2)).entries.map Entry.col = [1, 2] := by
      decide +kernel
    intro g hg e he hdropped
    obtain rfl : g = _ := List.mem_singleton.mp hg
    have hcol : e.col = 1 ∨ e.col = 2 := by
      rcases List.mem_pair.mp he with rfl | rfl
      · exact Or.inl rfl
      · exact Or.inr rfl
    have hnot := (Finset.mem_filter.mp hdropped).2
    rw [hkept] at hnot
    exact absurd (List.mem_pair.mpr hcol) hnot
  · rw [hindex, htargets]
    rfl

/-- **A constraint that is kept can be missed** by a vector that misses no constraint of the
program: here by what the first basis function contributes, which the sheet interpolates. -/
theorem kept_constraint_missed : ∃ p y,
    assemble starvedFirst (threeCells [⟨0, 0, 1⟩, ⟨1, 1, 1⟩, ⟨2, 2, 1⟩]) none none (some 2) =
      .ok p ∧
    p.coarse.ids = #[1] ∧ p.targets.values = #[4] ∧
    p.residual (Tensor.ofArray #[1, 8, 8]) = .ok #[0] ∧
    p.expand (Tensor.ofArray #[1, 8, 8]) 0 = .ok y ∧
    starvedFirst.mulVec (fun j => y.values.getD j 0) 1 = 9 / 2 := by
  have hrun : (do
      let p ← assemble starvedFirst (threeCells [⟨0, 0, 1⟩, ⟨1, 1, 1⟩, ⟨2, 2, 1⟩]) none none
        (some 2)
      let r ← p.residual (Tensor.ofArray #[1, 8, 8])
      let y ← p.expand (Tensor.ofArray #[1, 8, 8]) 0
      return (r, y.values, p.coarse.ids, p.targets.values)) =
      .ok (#[0], #[1, 8, 8], #[1], #[(4 : Rat)]) := eq_ok_of_toOption (by decide +kernel)
  obtain ⟨p, hp, hrun⟩ := bind_eq_ok.mp hrun
  obtain ⟨r, hr, hrun⟩ := bind_eq_ok.mp hrun
  obtain ⟨y, hy, hrun⟩ := bind_eq_ok.mp hrun
  obtain ⟨rfl, hvalues, hcoarse, htargets⟩ : r = #[0] ∧ y.values = #[1, 8, 8] ∧
      p.coarse.ids = #[1] ∧ p.targets.values = #[4] := by simpa [pure, Except.pure] using hrun
  refine ⟨p, y, hp, hcoarse, htargets, hr, hy, ?_⟩
  rw [hvalues]
  decide +kernel

end FittingProblem

end Regrid

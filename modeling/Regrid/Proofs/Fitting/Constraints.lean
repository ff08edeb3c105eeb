import Regrid.Proofs.Fitting.Influence
import Regrid.Proofs.Fitting.Objective

/-!
# What a fit is constrained to

A packed vector misses no constraint if and only if at every constrained coarse cell the operator of
the constraints gives the average of the fields over the cell (`assemble_constraints`). The average
is one over all sheets: the overlaps of the cell weigh the fields, and the area that the sheets
cover together divides the sum.
-/

namespace Regrid

namespace FittingProblem

variable {kept : SparseMatrix Rat} {sheets : List (GroupId × Sheet Rat)}

/-! ## Averages -/

/-- The area of a coarse cell that the sheets cover: what a sheet says, or the sum of its
overlaps. -/
def fullArea (sheets : List (GroupId × Sheet Rat)) (i : Nat) : Rat :=
  (sheets.map fun g => g.2.areas.elim
    (∑ c ∈ Finset.range g.2.overlaps.cols, g.2.overlaps.dense i c) fun a => a.values.getD i 0).sum

/-- The average of the fields over a coarse cell, zero where it has no area. -/
def average (sheets : List (GroupId × Sheet Rat)) (i : Nat) : Rat :=
  if fullArea sheets i = 0 then 0
  else (sheets.map fun g =>
    g.2.overlaps.mulVec (fun c => g.2.field.values.getD c 0) i).sum / fullArea sheets i

theorem coarseArea_exact (h : Sheets kept sheets) (i : Nat) :
    coarseArea sheets i = fullArea sheets i := by
  rw [coarseArea, Scalar.sum_eq, fullArea]
  refine congrArg List.sum (List.map_congr_left fun g hg => ?_)
  unfold Sheet.coveredArea
  cases g.2.areas with
  | some a => rfl
  | none =>
    exact (Scalar.sum_eq _).trans (SparseMatrix.sum_entries_row (h.consistent g hg).overlaps i)

/-- The terms of a constrained coarse cell sum to the average. -/
theorem sum_targetTerms (h : Sheets kept sheets) {i : Nat} (hi : i ∈ (coarsePacking kept).ids) :
    ((targetTerms kept sheets).map fun t =>
      if t.1 = (coarsePacking kept).index i then t.2 else 0).sum = average sheets i := by
  have hsheet : ∀ g ∈ sheets, (((constrained kept g.2).map fun e =>
      ((coarsePacking kept).index e.row,
        e.value * reciprocal (coarseArea sheets e.row) * g.2.field.values.getD e.col 0)).map
      fun t => if t.1 = (coarsePacking kept).index i then t.2 else 0).sum =
      g.2.overlaps.mulVec (fun c => g.2.field.values.getD c 0) i *
        reciprocal (fullArea sheets i) := by
    intro g hg
    rw [List.map_map, constrained, sum_map_filter, SparseMatrix.mulVec,
      ← SparseMatrix.sum_row (h.consistent g hg).overlaps, ← List.sum_map_mul_right]
    -- An entry that is left out has another row, so the sum can run over all entries.
    refine congrArg List.sum (List.map_congr_left fun e _ => ?_)
    by_cases hrow : e.row = i
    · simp only [Function.comp, hrow, if_true, Packing.keeps_iff.mpr hi, coarseArea_exact h]
      ring
    · have hindex : ¬ (coarsePacking kept).index e.row = (coarsePacking kept).index i := fun he =>
        hrow ((Packing.index_inj hi).mp he.symm).symm
      simp only [Function.comp, if_neg hrow, if_neg hindex, ite_self, zero_mul]
  rw [targetTerms, sum_map_flatMap, List.map_congr_left hsheet, List.sum_map_mul_right, average,
    reciprocal]
  by_cases harea : fullArea sheets i = 0
  · simp [harea]
  · rw [if_neg harea, if_neg (by simpa using harea), mul_one_div]

/-- The target of a constrained coarse cell is the average. -/
theorem getD_targets {p : FittingProblem Rat} (hp : Assembled kept sheets p)
    (h : Sheets kept sheets) {i : Nat} (hi : i ∈ p.coarse.ids) :
    p.targets.values.getD (p.coarse.index i) 0 = average sheets i := by
  have hlt : p.coarse.index i < p.coarse.size := Packing.index_lt hi
  rw [hp.coarse] at hi hlt
  rw [hp.targets, hp.coarse, ← sum_targetTerms h hi]
  exact SparseMatrix.getD_bucketSums_exact hlt _

/-! ## Residuals -/

/-- **A constraint is missed** by what the operator gives more than the average. -/
theorem residual_assembled {p : FittingProblem Rat} (hp : Assembled kept sheets p)
    (h : Sheets kept sheets) {x : Array Rat} (hx : x.size = p.basis.size) : ∃ r,
    p.residual (Tensor.ofArray x) = .ok r ∧ r.size = p.coarse.size ∧
      ∀ full : Nat → Rat, Extends kept sheets x full → ∀ i ∈ p.coarse.ids,
        r.getD (p.coarse.index i) 0 = kept.mulVec full i - average sheets i := by
  have hcols : (Tensor.ofArray x).shape = [p.constraints.cols] := by
    rw [hp.constraints, ← hp.basis, ← hx]
    rfl
  obtain ⟨y, hy, hsize, hvalues⟩ := SparseMatrix.apply_entries hcols
  have hrows : y.values.size = p.coarse.size := by rw [hsize, hp.constraints, hp.coarse]
  have htargets : p.targets.values.size = p.coarse.size := by
    rw [hp.targets, hp.coarse]
    exact SparseMatrix.size_bucketSums _ _
  refine ⟨_, bind_of_ok hy _, by rw [Array.size_zipWith, hrows, htargets, Nat.min_self],
    fun full hfull i hi => ?_⟩
  have hlt : p.coarse.index i < p.coarse.size := Packing.index_lt hi
  have hleft : y.values.getD (p.coarse.index i) 0 = kept.mulVec full i := by
    rw [hvalues _ (by rw [hp.constraints, ← hp.coarse]; exact hlt), hp.constraints, List.map_map,
      hp.coarse, SparseMatrix.mulVec, ← SparseMatrix.sum_row h.inBounds]
    refine congrArg List.sum (List.map_congr_left fun e he => ?_)
    have hindex : (coarsePacking kept).index e.row = (coarsePacking kept).index i ↔ e.row = i :=
      Packing.index_inj (kept_row_mem_coarse he)
    have hcol := hfull e.col (Packing.mem_used.mp (kept_col_mem_basis sheets he))
    rw [hcol]
    exact if_congr hindex rfl rfl
  rw [← hleft, ← getD_targets hp h hi]
  simp [Array.getD, hrows, htargets, hlt]

/-- Nothing is missed if and only if each constraint holds. -/
theorem residual_eq_zero_iff {p : FittingProblem Rat} (hp : Assembled kept sheets p)
    (h : Sheets kept sheets) {x : Array Rat} (hx : x.size = p.basis.size) : ∃ r,
    p.residual (Tensor.ofArray x) = .ok r ∧ ∀ full : Nat → Rat, Extends kept sheets x full →
      (r = Array.replicate p.coarse.size 0 ↔
        ∀ i ∈ kept.entries.map Entry.row, kept.mulVec full i = average sheets i) := by
  obtain ⟨r, hr, hsize, hmissed⟩ := residual_assembled hp h hx
  have hnodup : p.coarse.ids.toList.Nodup := by
    rw [hp.coarse]
    exact nodup_ascending _
  refine ⟨r, hr, fun full hfull => ?_⟩
  rw [eq_replicate_zero_iff hsize, Packing.forall_index_iff hnodup]
  refine forall_congr' fun i => ?_
  have hmem : i ∈ p.coarse.ids ↔ i ∈ kept.entries.map Entry.row := by
    rw [hp.coarse]
    exact Packing.mem_used
  rw [hmem]
  refine forall_congr' fun hi => ?_
  rw [hmissed full hfull i (hmem.mpr hi), sub_eq_zero]

/-- **A fit is constrained to the averages** of the fields, and by nothing else: rows of the
overlaps without a constraint have no part in the constraints, nor in the targets, and values at
cells that no operator touches have none in the program. -/
theorem assemble_constraints :
    (∀ (constraints : SparseMatrix Rat) (sheets : List (GroupId × Sheet Rat)),
      constraints.InBounds →
      (∀ g ∈ lastValues sheets, g.2.Consistent constraints.rows constraints.cols) →
      ∀ (guess : Option (Tensor Rat)) (filling : Option Rat),
        (IsGuess constraints.cols guess filling →
          ∃ p, assemble constraints sheets guess filling none = .ok p) ∧
        ∀ p, assemble constraints sheets guess filling none = .ok p →
        ∀ x : Array Rat, x.size = p.basis.size → ∀ blank : Rat, ∃ y r,
          p.expand (Tensor.ofArray x) blank = .ok y ∧ y.shape = [constraints.cols] ∧
          p.residual (Tensor.ofArray x) = .ok r ∧
          ∀ full : Nat → Rat,
            (∀ j ∈ usedBasis constraints (lastValues sheets), full j = y.values.getD j 0) →
            (r = Array.replicate p.coarse.size 0 ↔ ∀ i ∈ constraints.entries.map Entry.row,
              constraints.mulVec full i = average (lastValues sheets) i)) ∧
    ∀ (α : Type) [Scalar α] (constraints : SparseMatrix α)
      (sheets sheets' : List (GroupId × Sheet α)),
      constraints.InBounds →
      (∀ g ∈ lastValues sheets, g.2.Consistent constraints.rows constraints.cols) →
      (∀ g ∈ lastValues sheets', g.2.Consistent constraints.rows constraints.cols) →
      (List.Forall₂ (fun g k => g.1 = k.1 ∧ g.2.AgreeAt (constraints.entries.map Entry.row) k.2)
          (lastValues sheets) (lastValues sheets') →
        ∀ (guess guess' : Option (Tensor α)) (filling filling' : Option α)
          (p p' : FittingProblem α),
          assemble constraints sheets guess filling none = .ok p →
          assemble constraints sheets' guess' filling' none = .ok p' →
          p.constraints = p'.constraints ∧ p.targets = p'.targets) ∧
      (List.Forall₂ (fun g k => g.1 = k.1 ∧ g.2.AgreeUsed k.2) (lastValues sheets)
          (lastValues sheets') →
        ∀ (guess : Option (Tensor α)) (filling : Option α),
          assemble constraints sheets guess filling none =
            assemble constraints sheets' guess filling none) := by
  constructor
  · intro constraints sheets hC hs guess filling
    have h := prepared_all hC hs
    refine ⟨fun hguess => assemble_ok h (fun _ _ _ _ => rfl) hguess, fun p hp x hx blank => ?_⟩
    have hp := assembled_of_ok h hp
    obtain ⟨y, hy, hshape, hextends⟩ := expand_eq hp h.toSheets hx blank
    obtain ⟨r, hr, hzero⟩ := residual_eq_zero_iff hp h.toSheets hx
    exact ⟨y, r, hy, hshape, hr, fun full hfull => hzero full (hextends full hfull)⟩
  · intro α _ constraints sheets sheets' hC hs hs'
    have h := prepared_all hC hs
    have h' := prepared_all hC hs'
    constructor
    · intro hagree guess guess' filling filling' p p' hp hp'
      exact (assembled_of_ok h hp).constraints_congr hagree (assembled_of_ok h' hp')
    · intro hagree guess filling
      exact assemble_congr hagree h h' guess filling

/-- Of two coarse cells one is constrained. Neither the overlap with the other, nor the eastern
field at a cell that no operator touches, changes the constraints. -/
theorem assemble_constraints_westEast : ∃ p p',
    assemble ⟨2, 3, [⟨0, 0, 1⟩]⟩ (westEast [⟨1, 1, 4⟩] 7) none none none = .ok p ∧
    (∀ x : Array Rat, x.size = p.basis.size → ∃ y r, p.expand (Tensor.ofArray x) 0 = .ok y ∧
      p.residual (Tensor.ofArray x) = .ok r ∧
      (r = Array.replicate p.coarse.size 0 ↔ y.values.getD 0 0 = 7 / 3)) ∧
    assemble ⟨2, 3, [⟨0, 0, 1⟩]⟩ (westEast [⟨1, 0, 9⟩] 7) none none none = .ok p' ∧
    p.constraints = p'.constraints ∧ p.targets = p'.targets ∧
    assemble ⟨2, 3, [⟨0, 0, 1⟩]⟩ (westEast [⟨1, 1, 4⟩] 8) none none none = .ok p := by
  obtain ⟨hexact, hagree⟩ := assemble_constraints
  have hguess : IsGuess (α := Rat) 3 none none := fun _ h => by cases h
  obtain ⟨hsome, hresidual⟩ := hexact ⟨2, 3, [⟨0, 0, 1⟩]⟩ (westEast [⟨1, 1, 4⟩] 7)
    (by decide) (by decide) none none
  obtain ⟨p, hp⟩ := hsome hguess
  obtain ⟨p', hp'⟩ := (hexact ⟨2, 3, [⟨0, 0, 1⟩]⟩ (westEast [⟨1, 0, 9⟩] 7)
    (by decide) (by decide) none none).1 hguess
  have hrows := (hagree Rat ⟨2, 3, [⟨0, 0, 1⟩]⟩ (westEast [⟨1, 1, 4⟩] 7) (westEast [⟨1, 0, 9⟩] 7)
    (by decide) (by decide) (by decide)).1
    (.cons ⟨rfl, rfl, rfl, fun _ _ _ => rfl, rfl⟩
      (.cons ⟨rfl, rfl, rfl, fun _ _ _ => rfl, rfl⟩ .nil)) none none none none p p' hp hp'
  have hcells := (hagree Rat ⟨2, 3, [⟨0, 0, 1⟩]⟩ (westEast [⟨1, 1, 4⟩] 7) (westEast [⟨1, 1, 4⟩] 8)
    (by decide) (by decide) (by decide)).2
    (.cons ⟨rfl, rfl, rfl, fun _ _ => rfl, rfl⟩
      (.cons ⟨rfl, rfl, rfl, by decide +kernel, rfl⟩ .nil)) none none
  refine ⟨p, p', hp, fun x hx => ?_, hp', hrows.1, hrows.2, hcells ▸ hp⟩
  obtain ⟨y, r, hy, -, hr, hzero⟩ := hresidual p hp x hx 0
  refine ⟨y, r, hy, hr, (hzero (fun j => y.values.getD j 0) fun _ _ => rfl).trans ?_⟩
  have haverage : average (lastValues (westEast [⟨1, 1, 4⟩] 7)) 0 = 7 / 3 := by decide +kernel
  simp [haverage, SparseMatrix.mulVec, SparseMatrix.dense_eq, Finset.sum_range_succ]

end FittingProblem

end Regrid

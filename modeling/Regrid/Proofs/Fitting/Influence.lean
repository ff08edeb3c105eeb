import Mathlib.Data.List.Forall2
import Regrid.Proofs.Fitting.Assemble

/-!
# What a program depends on

Whether or not there are values that are no number, in any arithmetic:

* `Assembled.constraints_congr`: the constraints of a fit read of the overlaps only the rows of
  constrained coarse cells, and of the fields only what these rows touch.
* `assemble_congr`: values of a field at cells that no operator touches change nothing at all.
-/

namespace Regrid

variable {α : Type}

/-- Lists that correspond, with functions that agree on what corresponds. -/
theorem map_eq_of_forall₂ {β γ δ : Type} {R : β → γ → Prop} {f : β → δ} {g : γ → δ} {xs : List β}
    {ys : List γ} (h : List.Forall₂ R xs ys) (hfg : ∀ x y, R x y → f x = g y) :
    xs.map f = ys.map g := by
  induction h with
  | nil => rfl
  | cons hxy _ ih => rw [List.map_cons, List.map_cons, hfg _ _ hxy, ih]

namespace Sheet

variable [Scalar α]

/-- The sheets interpolate in the same way and agree about the coarse cells of some rows. -/
structure AgreeAt (rows : List Nat) (s t : Sheet α) : Prop where
  interpolation : s.interpolation = t.interpolation
  overlaps : (s.overlaps.entries.filter fun e => e.row ∈ rows) =
    t.overlaps.entries.filter fun e => e.row ∈ rows
  field : ∀ e ∈ s.overlaps.entries, e.row ∈ rows →
    s.field.values.getD e.col 0 = t.field.values.getD e.col 0
  areas : s.areas = t.areas

/-- The sheets have the same operators, and their fields agree at the cells that these touch. -/
structure AgreeUsed (s t : Sheet α) : Prop where
  interpolation : s.interpolation = t.interpolation
  overlaps : s.overlaps = t.overlaps
  field : ∀ c ∈ s.usedCells, s.field.values.getD c 0 = t.field.values.getD c 0
  areas : s.areas = t.areas

variable {s t : Sheet α}

theorem AgreeUsed.agreeAt (h : s.AgreeUsed t) (rows : List Nat) : s.AgreeAt rows t :=
  ⟨h.interpolation, by rw [h.overlaps], fun _ he _ => h.field _ (col_mem_usedCells he), h.areas⟩

theorem AgreeUsed.usedCells (h : s.AgreeUsed t) : s.usedCells = t.usedCells := by
  rw [Sheet.usedCells, h.overlaps, h.interpolation, Sheet.usedCells]

/-- An area is that of the entries of a row. -/
theorem AgreeAt.coveredArea {rows : List Nat} (h : s.AgreeAt rows t) {i : Nat} (hi : i ∈ rows) :
    s.coveredArea i = t.coveredArea i := by
  have hrow : ∀ u : Sheet α, (u.overlaps.entries.filter fun e => e.row = i) =
      (u.overlaps.entries.filter fun e => e.row ∈ rows).filter fun e => e.row = i := by
    intro u
    rw [List.filter_filter]
    refine List.filter_congr fun e _ => ?_
    by_cases he : e.row = i
    · simp [he, hi]
    · simp [he]
  rw [Sheet.coveredArea, h.areas, hrow, h.overlaps, ← hrow, Sheet.coveredArea]

end Sheet

namespace FittingProblem

variable [Scalar α] {kept : SparseMatrix α} {sheets sheets' : List (GroupId × Sheet α)}

/-! ## Constraints -/

section Constraints

variable (h : List.Forall₂
  (fun g k => g.1 = k.1 ∧ g.2.AgreeAt (kept.entries.map Entry.row) k.2) sheets sheets')
include h

theorem basisPacking_congr : basisPacking kept sheets = basisPacking kept sheets' := by
  have hcols := map_eq_of_forall₂ (f := fun g => g.2.interpolation.entries.map Entry.col)
    (g := fun k => k.2.interpolation.entries.map Entry.col) h
    fun g k hgk => by rw [hgk.2.interpolation]
  unfold basisPacking usedBasis
  rw [List.flatMap_def, hcols, List.flatMap_def]

theorem coarseArea_congr {i : Nat} (hi : i ∈ kept.entries.map Entry.row) :
    coarseArea sheets i = coarseArea sheets' i := by
  unfold coarseArea
  rw [map_eq_of_forall₂ h fun g k hgk => hgk.2.coveredArea hi]

theorem targetTerms_congr : targetTerms kept sheets = targetTerms kept sheets' := by
  have hkeep : ∀ s : Sheet α, constrained kept s =
      s.overlaps.entries.filter fun e => e.row ∈ kept.entries.map Entry.row := by
    intro s
    refine List.filter_congr fun e _ => ?_
    rw [Bool.eq_iff_iff, Packing.keeps_iff, decide_eq_true_iff]
    exact Packing.mem_used
  unfold targetTerms
  rw [List.flatMap_def, List.flatMap_def]
  refine congrArg List.flatten (map_eq_of_forall₂ h fun g k hgk => ?_)
  rw [hkeep, hkeep, ← hgk.2.overlaps]
  refine List.map_congr_left fun e he => ?_
  obtain ⟨hentry, hrow⟩ := List.mem_filter.mp he
  have hrow := of_decide_eq_true hrow
  rw [coarseArea_congr h hrow, hgk.2.field e hentry hrow]

/-- **Constraints** come from the constrained rows. -/
theorem Assembled.constraints_congr {p p' : FittingProblem α} (hp : Assembled kept sheets p)
    (hp' : Assembled kept sheets' p') :
    p.constraints = p'.constraints ∧ p.targets = p'.targets := by
  rw [hp.constraints, hp'.constraints, hp.targets, hp'.targets, basisPacking_congr h,
    targetTerms_congr h]
  exact ⟨rfl, rfl⟩

end Constraints

/-! ## Programs -/

/-- The operators and the fields at used cells make up a program. -/
theorem Assembled.unique {p p' : FittingProblem α} (hp : Assembled kept sheets p)
    (hp' : Assembled kept sheets p') (hstart : p.start = p'.start) : p = p' := by
  obtain ⟨square, hsquare, hlower⟩ := hp.leastSquares.lower
  obtain ⟨square', hsquare', hlower'⟩ := hp'.leastSquares.lower
  obtain ⟨slopes, hslopes, hlinear⟩ := hp.leastSquares.linear
  obtain ⟨slopes', hslopes', hlinear'⟩ := hp'.leastSquares.linear
  obtain rfl := Except.ok.inj (hsquare.symm.trans hsquare')
  obtain rfl := Except.ok.inj (hslopes.symm.trans hslopes')
  have hlow : p.lower = p'.lower := Except.ok.inj (hlower.symm.trans hlower')
  have hlin : p.linear = p'.linear := hlinear.trans hlinear'.symm
  have hconstant : p.constant = p'.constant :=
    hp.leastSquares.constant.trans hp'.leastSquares.constant.symm
  have hconstraints := hp.constraints.trans hp'.constraints.symm
  have htargets := hp.targets.trans hp'.targets.symm
  have hcoarse := hp.coarse.trans hp'.coarse.symm
  have hfine := hp.fine.trans hp'.fine.symm
  have hbasis := hp.basis.trans hp'.basis.symm
  obtain ⟨⟨_, _, _, _, _, _⟩, _, _, _⟩ := p
  obtain ⟨⟨_, _, _, _, _, _⟩, _, _, _⟩ := p'
  simp only at hlow hlin hconstant hconstraints htargets hstart hcoarse hfine hbasis
  subst hlow hlin hconstant hconstraints htargets hstart hcoarse hfine hbasis
  rfl

section Used

variable (h : List.Forall₂ (fun g k => g.1 = k.1 ∧ g.2.AgreeUsed k.2) sheets sheets')
include h

theorem finePacking_congr : finePacking sheets = finePacking sheets' := by
  refine congrArg (GroupPacking.mk "space2") (map_eq_of_forall₂ h fun g k hgk => ?_)
  simp only [hgk.1, hgk.2.overlaps, hgk.2.usedCells]

theorem fineField_congr : fineField sheets = fineField sheets' := by
  unfold fineField GroupPacking.members
  rw [List.map_flatMap, List.map_flatMap, List.flatMap_def, List.flatMap_def]
  refine congrArg (fun ls => (List.flatten ls).toArray) (map_eq_of_forall₂ h fun g k hgk => ?_)
  rw [← hgk.2.usedCells, List.map_map, List.map_map]
  exact List.map_congr_left fun c hc => hgk.2.field c (mem_ascending.mp hc)

theorem agreeAt_of_agreeUsed (rows : List Nat) :
    List.Forall₂ (fun g k => g.1 = k.1 ∧ g.2.AgreeAt rows k.2) sheets sheets' :=
  h.imp fun _ _ hgk => ⟨hgk.1, hgk.2.agreeAt rows⟩

theorem fineInterpolation_congr :
    fineInterpolation kept sheets = fineInterpolation kept sheets' := by
  unfold fineInterpolation
  rw [finePacking_congr h, basisPacking_congr (agreeAt_of_agreeUsed h _), List.flatMap_def,
    List.flatMap_def]
  refine congrArg (fun ls => SparseMatrix.mk _ _ (List.flatten ls))
    (map_eq_of_forall₂ h fun g k hgk => ?_)
  rw [hgk.1, hgk.2.interpolation]

theorem Assembled.congr {p : FittingProblem α} (hp : Assembled kept sheets p) :
    Assembled kept sheets' p where
  coarse := hp.coarse
  fine := hp.fine.trans (finePacking_congr h)
  basis := hp.basis.trans (basisPacking_congr (agreeAt_of_agreeUsed h _))
  constraints := by rw [hp.constraints, basisPacking_congr (agreeAt_of_agreeUsed h _)]
  targets := by rw [hp.targets, targetTerms_congr (agreeAt_of_agreeUsed h _)]
  leastSquares := by
    rw [← fineInterpolation_congr h, ← fineField_congr h]
    exact hp.leastSquares

/-- **Values at unused cells** change neither the program nor whether there is one. -/
theorem assemble_congr {constraints : SparseMatrix α} {minimum : Option Number}
    {pairs pairs' : List (GroupId × Sheet α)} (hs : Prepared constraints pairs minimum kept sheets)
    (hs' : Prepared constraints pairs' minimum kept sheets') (guess : Option (Tensor α))
    (filling : Option α) : assemble constraints pairs guess filling minimum =
      assemble constraints pairs' guess filling minimum := by
  obtain ⟨q, hq, hassemble⟩ := assemble_eq hs guess filling
  obtain ⟨q', hq', hassemble'⟩ := assemble_eq hs' guess filling
  have hprogram : q = q' := funext fun start =>
    ((hq start).1.congr h).unique (hq' start).1 ((hq start).2.trans (hq' start).2.symm)
  have hname : cellName sheets = cellName sheets' := by
    unfold cellName
    rw [finePacking_congr h]
  rw [hassemble, hassemble', fineField_congr h, hname,
    basisPacking_congr (agreeAt_of_agreeUsed h _), hprogram]

end Used

end FittingProblem

end Regrid

import Regrid.Proofs.Fitting.Dropped
import Regrid.Proofs.Fitting.Existence

/-!
# Which shapes a fit takes

Sheets whose operators or fields do not fit to the constraints are refused before anything is
computed, and the first of them is named (`Sheet.check_of_not_fits`). The given areas of the coarse
cells are not part of that check. They are added up like any arrays: areas that cannot be spread
over the coarse cells end the fit with an error of the addition (`totalAreas_cases`), and a single
area is taken for that of every coarse cell (`assemble_spreadAreas`).

`assemble_shapes` says what becomes of any shapes; `assemble_passes_singleArea` is a fit of two
coarse cells with one area.
-/

namespace Regrid

variable {α : Type}

/-- A tensor has a value for each of `n` places, or one for all. -/
def Tensor.Spreads (a : Tensor α) (n : Nat) : Prop := a.shape = [n] ∨ a.shape = [] ∨ a.shape = [1]

instance (a : Tensor α) (n : Nat) : Decidable (a.Spreads n) :=
  inferInstanceAs (Decidable (_ ∨ _))

theorem Tensor.spread_ok {a : Tensor α} {n : Nat} (h : a.Spreads n) :
    ∃ xs, a.spread n = .ok xs := by
  unfold spread
  split_ifs with hshape hsingle
  · exact ⟨_, rfl⟩
  · exact ⟨_, rfl⟩
  · exact absurd (h.resolve_left hshape) hsingle

theorem Tensor.spread_error {a : Tensor α} {n : Nat} (h : ¬ a.Spreads n) :
    a.spread n = .error .invalidValue := by
  obtain ⟨hshape, hsingle⟩ := not_or.mp h
  rw [spread, if_neg hshape, if_neg hsingle]

/-- The tensor with a value for each of `n` places that one with a value for all stands for. -/
def Tensor.spreadOut (a : Tensor α) (n : Nat) : Tensor α :=
  match a.spread n with
  | .ok xs => ⟨[n], xs⟩
  | .error _ => a

theorem Tensor.spread_spreadOut (a : Tensor α) (n : Nat) :
    (a.spreadOut n).spread n = a.spread n := by
  unfold spreadOut
  split
  · rename_i xs hxs
    rw [hxs, spread, if_pos rfl]
  · rfl

theorem Datum.int_inj {n m : Int} (h : Datum.int n = Datum.int m) : n = m := by
  injection h with h
  injection h

theorem Datum.shape_inj {ns ms : List Nat} (h : Datum.shape ns = Datum.shape ms) : ns = ms := by
  injection h with h
  exact List.map_injective_iff.mpr (fun _ _ hnm => Int.ofNat_inj.mp (int_inj hnm)) h

namespace Sheet

/-! ## The check of a sheet -/

/-- An error that names a part of a sheet, and a shape that this part has instead of another. -/
def IsMisfit (id : GroupId) (e : Error) : Prop :=
  ∃ part ∈ ["S", "XM", "f2"], ∃ fault expected actual, expected ≠ actual ∧
    e = .dimensionMismatch (part ++ " of sheet " ++ id.datum.quoted ++ " " ++ fault) expected actual

variable {s : Sheet α} {coarse basis : Nat}

/-- **A sheet that does not fit** is refused, and a part that does not fit is named. -/
theorem check_of_not_fits (h : ¬ s.Fits coarse basis) (id : GroupId) :
    ∃ e, s.check id coarse basis = .error e ∧ IsMisfit id e := by
  unfold check
  by_cases hrows : s.overlaps.rows = coarse
  · by_cases hshape : s.interpolation.rows = s.overlaps.cols ∧ s.interpolation.cols = basis
    · have hfield : s.field.shape ≠ [s.overlaps.cols] := fun hf => h ⟨hrows, hshape, hf⟩
      simp only [if_pos hrows, if_pos hshape, if_neg hfield]
      exact ⟨_, rfl, "f2", by simp, _, _, _, fun he => hfield (Datum.shape_inj he).symm, rfl⟩
    · simp only [if_pos hrows, if_neg hshape]
      refine ⟨_, rfl, "XM", by simp, _, _, _, fun he => hshape ?_, rfl⟩
      have hdims := Datum.shape_inj he
      exact ⟨(List.head_eq_of_cons_eq hdims).symm,
        (List.head_eq_of_cons_eq (List.tail_eq_of_cons_eq hdims)).symm⟩
  · simp only [if_neg hrows]
    refine ⟨_, rfl, "S", by simp, _, _, _, fun he => hrows ?_, rfl⟩
    exact (Int.ofNat_inj.mp (Datum.int_inj he)).symm

/-! ## Areas -/

/-- The given areas of a sheet can be spread over the coarse cells. -/
def AreasFit (s : Sheet α) (coarse : Nat) : Prop := ∀ a ∈ s.areas, a.Spreads coarse

instance (s : Sheet α) (coarse : Nat) : Decidable (s.AreasFit coarse) :=
  inferInstanceAs (Decidable (∀ a ∈ s.areas, a.Spreads coarse))

/-- A sheet without its given areas. -/
def bare (s : Sheet α) : Sheet α := { s with areas := none }

/-- A sheet with an area for every coarse cell where one is given for all. -/
def spreadAreas (s : Sheet α) : Sheet α :=
  { s with areas := s.areas.map fun a => a.spreadOut s.overlaps.rows }

section CoveredAreas

variable [Scalar α]

theorem coveredAreas_ok (h : s.AreasFit s.overlaps.rows) : ∃ xs, s.coveredAreas = .ok xs := by
  unfold coveredAreas
  cases harea : s.areas with
  | none => exact ⟨_, rfl⟩
  | some a => exact Tensor.spread_ok (h a harea)

theorem coveredAreas_error (h : ¬ s.AreasFit s.overlaps.rows) :
    s.coveredAreas = .error .invalidValue := by
  unfold AreasFit at h
  push Not at h
  obtain ⟨a, ha, hspread⟩ := h
  unfold coveredAreas
  rw [Option.mem_def.mp ha]
  exact Tensor.spread_error hspread

/-- **A single area** is taken for that of every coarse cell. -/
theorem coveredAreas_spreadAreas (s : Sheet α) : s.spreadAreas.coveredAreas = s.coveredAreas := by
  unfold coveredAreas spreadAreas
  cases s.areas with
  | none => rfl
  | some a => exact a.spread_spreadOut s.overlaps.rows

end CoveredAreas

end Sheet

namespace FittingProblem

variable [Scalar α] {constraints kept : SparseMatrix α} {pairs sheets : List (GroupId × Sheet α)}
  {minimum : Option Number}

/-- Adding up areas ends with an error if some of them do not fit, whichever come first. -/
theorem totalAreas_cases {coarse : Nat} (hrows : ∀ g ∈ sheets, g.2.overlaps.rows = coarse) :
    ((∀ g ∈ sheets, g.2.AreasFit coarse) ∧ ∃ areas, totalAreas coarse sheets = .ok areas) ∨
      ((∃ g ∈ sheets, ¬ g.2.AreasFit coarse) ∧
        totalAreas coarse sheets = .error .invalidValue) := by
  have hfold : ∀ (sheets : List (GroupId × Sheet α)), (∀ g ∈ sheets, g.2.overlaps.rows = coarse) →
      ∀ acc : Array α, ((∀ g ∈ sheets, g.2.AreasFit coarse) ∧ ∃ areas, sheets.foldlM
          (fun acc g => do return Array.zipWith (· + ·) acc (← g.2.coveredAreas)) acc =
            (.ok areas : Except Error _)) ∨
        ((∃ g ∈ sheets, ¬ g.2.AreasFit coarse) ∧ sheets.foldlM
          (fun acc g => do return Array.zipWith (· + ·) acc (← g.2.coveredAreas)) acc =
            (.error .invalidValue : Except Error _)) := by
    intro sheets
    induction sheets with
    | nil => exact fun _ acc => Or.inl ⟨nofun, acc, rfl⟩
    | cons g sheets ih =>
      intro hrows acc
      obtain ⟨hg, hrows⟩ := List.forall_mem_cons.mp hrows
      by_cases hfit : g.2.AreasFit coarse
      · obtain ⟨xs, hxs⟩ := Sheet.coveredAreas_ok (s := g.2) (by rwa [hg])
        rw [List.foldlM_cons, hxs]
        refine (ih hrows (Array.zipWith (· + ·) acc xs)).imp (fun ⟨hall, hok⟩ => ?_)
          fun ⟨⟨k, hk, hbad⟩, herror⟩ => ?_
        · exact ⟨List.forall_mem_cons.mpr ⟨hfit, hall⟩, hok⟩
        · exact ⟨⟨k, List.mem_cons_of_mem g hk, hbad⟩, herror⟩
      · have hbad : g.2.coveredAreas = .error .invalidValue :=
          Sheet.coveredAreas_error (by rwa [hg])
        rw [List.foldlM_cons, hbad]
        exact Or.inr ⟨⟨g, List.mem_cons_self, hfit⟩, rfl⟩
  exact hfold sheets hrows _

/-! ## Fits of any shapes -/

/-- A sheet that does not fit ends the fit; the first one is named. -/
theorem assemble_misfit {g : GroupId × Sheet α}
    (hg : (lastValues pairs).find? (fun g => ¬ g.2.Fits constraints.rows constraints.cols) =
      some g) (guess : Option (Tensor α)) (filling : Option α) (minimum : Option Number) :
    ∃ e, assemble constraints pairs guess filling minimum = .error e ∧ Sheet.IsMisfit g.1 e := by
  obtain ⟨hbad, before, after, hsplit, hbefore⟩ := List.find?_eq_some_iff_append.mp hg
  obtain ⟨e, he, hmisfit⟩ := Sheet.check_of_not_fits (of_decide_eq_true hbad) g.1
  have hfits : ∀ k ∈ before, k.2.check k.1 constraints.rows constraints.cols = .ok () :=
    fun k hk => Sheet.check_of_fits (by simpa using hbefore k hk) k.1
  have hchecks : (lastValues pairs).forM
      (fun g => g.2.check g.1 constraints.rows constraints.cols) = .error e := by
    rw [hsplit]
    exact forM_error (x := g) he after hfits
  refine ⟨e, ?_, hmisfit⟩
  unfold assemble
  simp only
  rw [hchecks]
  rfl

/-- Whatever a program is assembled from fits, but for single areas. -/
theorem fits_of_assemble {guess : Option (Tensor α)} {filling : Option α} {p : FittingProblem α}
    (hp : assemble constraints pairs guess filling minimum = .ok p) {g : GroupId × Sheet α}
    (hg : g ∈ lastValues pairs) :
    g.2.Fits constraints.rows constraints.cols ∧ g.2.AreasFit constraints.rows := by
  have hfits : ∀ k ∈ lastValues pairs, k.2.Fits constraints.rows constraints.cols := by
    intro k hk
    by_contra hbad
    obtain ⟨l, hl⟩ : ∃ l, (lastValues pairs).find?
        (fun g => ¬ g.2.Fits constraints.rows constraints.cols) = some l :=
      Option.isSome_iff_exists.mp (List.find?_isSome.mpr ⟨k, hk, decide_eq_true hbad⟩)
    obtain ⟨e, he, -⟩ := assemble_misfit hl guess filling minimum
    cases he.symm.trans hp
  refine ⟨hfits g hg, ?_⟩
  unfold assemble at hp
  obtain ⟨-, -, hp⟩ := bind_eq_ok.mp hp
  obtain ⟨coarse, -, hp⟩ := bind_eq_ok.mp hp
  obtain ⟨fine, -, hp⟩ := bind_eq_ok.mp hp
  obtain ⟨basis, -, hp⟩ := bind_eq_ok.mp hp
  obtain ⟨packed, -, hp⟩ := bind_eq_ok.mp hp
  obtain ⟨overlaps, -, hp⟩ := bind_eq_ok.mp hp
  obtain ⟨interpolations, -, hp⟩ := bind_eq_ok.mp hp
  obtain ⟨areas, htotal, -⟩ := bind_eq_ok.mp hp
  rcases totalAreas_cases fun k hk => (hfits k hk).overlaps with ⟨hall, -⟩ | ⟨-, herror⟩
  · exact hall g hg
  · cases herror.symm.trans htotal

/-- The sheets without their given areas. -/
def withoutAreas (sheets : List (GroupId × Sheet α)) : List (GroupId × Sheet α) :=
  sheets.map fun g => (g.1, g.2.bare)

section WithoutAreas

omit [Scalar α]

theorem mem_withoutAreas {g : GroupId × Sheet α} (hg : g ∈ sheets) :
    (g.1, g.2.bare) ∈ withoutAreas sheets :=
  List.mem_map_of_mem (f := fun g : GroupId × Sheet α => (g.1, g.2.bare)) hg

theorem finePacking_withoutAreas : finePacking (withoutAreas sheets) = finePacking sheets :=
  congrArg (GroupPacking.mk "space2") List.map_map

theorem usedBasis_withoutAreas : usedBasis kept (withoutAreas sheets) = usedBasis kept sheets :=
  congrArg (kept.entries.map Entry.col ++ ·) (List.flatMap_map _ _ _)

variable (h : Sheets kept (withoutAreas sheets))
include h

theorem ofUsed_fine_withoutAreas :
    GroupPacking.ofUsed (sheets.map fun g => (g.1, (g.2.overlaps.cols : Int)))
      (sheets.flatMap fun g => g.2.usedCells.map fun c : Nat => (g.1, Number.whole c)) "space2" =
      .ok (finePacking sheets) := by
  have hfine := ofUsed_fine h
  rw [finePacking_withoutAreas, withoutAreas, List.map_map, List.flatMap_map] at hfine
  exact hfine

theorem exists_overlapBlocks : ∃ blocks, sheets.mapM (fun g =>
    g.2.overlapBlock g.1 (coarsePacking kept) (finePacking sheets)) = .ok blocks := by
  refine exists_mapM fun g hg => ?_
  rw [← finePacking_withoutAreas]
  exact ⟨_, overlapBlock_eq (g := (g.1, g.2.bare)) h (mem_withoutAreas hg)⟩

theorem exists_interpolationBlocks : ∃ blocks, sheets.mapM (fun g =>
    g.2.interpolationBlock g.1 (finePacking sheets) (basisPacking kept sheets)) = .ok blocks := by
  refine exists_mapM fun g hg => ?_
  rw [← finePacking_withoutAreas, basisPacking, ← usedBasis_withoutAreas]
  exact ⟨_, interpolationBlock_eq (g := (g.1, g.2.bare)) h (mem_withoutAreas hg)⟩

end WithoutAreas

/-- Areas that cannot be spread end the fit with the error of their addition: the steps before it
are those of the sheets without areas. -/
theorem assemble_misfitArea (hC : constraints.InBounds)
    (hs : ∀ g ∈ lastValues pairs, g.2.bare.Consistent constraints.rows constraints.cols)
    (hbad : ∃ g ∈ lastValues pairs, ¬ g.2.AreasFit constraints.rows)
    (guess : Option (Tensor α)) (filling : Option α) (minimum : Option Number) :
    assemble constraints pairs guess filling minimum = .error .invalidValue := by
  have hlast : lastValues (withoutAreas pairs) = withoutAreas (lastValues pairs) :=
    lastValues_map Sheet.bare pairs
  have hprep : Prepared constraints (withoutAreas pairs) minimum _ _ :=
    prepared_kept hC (by rw [hlast]; exact List.forall_mem_map.mpr hs) minimum
  rw [hlast] at hprep
  have h := hprep.toSheets
  have hchecks : (lastValues pairs).forM
      (fun g => g.2.check g.1 constraints.rows constraints.cols) = .ok () :=
    forM_ok fun g hg => (hs g hg).check_eq g.1
  have hbasis := ofUsed_basis h
  rw [basisPacking, usedBasis_withoutAreas] at hbasis
  obtain ⟨overlaps, hoverlaps⟩ := exists_overlapBlocks h
  obtain ⟨interpolations, hinterpolations⟩ := exists_interpolationBlocks h
  obtain ⟨g, hg, hmisfit⟩ := hbad
  have htotal := (totalAreas_cases fun g hg => (hs g hg).overlaps_rows).resolve_left
    fun hall => hmisfit (hall.1 g hg)
  unfold assemble
  simp only [hprep.kept_eq]
  refine (bind_of_ok hchecks _).trans ?_
  simp only [hprep.rows_eq, hprep.cols_eq]
  refine (bind_of_ok (ofUsed_coarse h) _).trans ?_
  refine (bind_of_ok (ofUsed_fine_withoutAreas h) _).trans ?_
  refine (bind_of_ok hbasis _).trans ?_
  refine (bind_of_ok pack_constraints _).trans ?_
  refine (bind_of_ok hoverlaps _).trans ?_
  refine (bind_of_ok hinterpolations _).trans ?_
  rw [← hprep.rows_eq, htotal.2]
  rfl

/-- **Areas for each coarse cell** can be written for single ones. -/
theorem assemble_spreadAreas (constraints : SparseMatrix α) (pairs : List (GroupId × Sheet α))
    (guess : Option (Tensor α)) (filling : Option α) (minimum : Option Number) :
    assemble constraints (pairs.map fun g => (g.1, g.2.spreadAreas)) guess filling minimum =
      assemble constraints pairs guess filling minimum := by
  have htotal (coarse : Nat) (sheets : List (GroupId × Sheet α)) :
      totalAreas coarse (sheets.map fun g => (g.1, g.2.spreadAreas)) =
        totalAreas coarse sheets := by
    unfold totalAreas
    rw [List.foldlM_map]
    simp only [Sheet.coveredAreas_spreadAreas]
  unfold assemble
  rw [lastValues_map Sheet.spreadAreas]
  simp only [htotal, List.forM_eq_forM, List.forM_map, List.flatMap_map, List.mapM_map,
    List.map_map, fineValues]
  rfl

/-- **Shapes that a fit takes.** If the operators or the field of a sheet do not fit, the fit ends
with an error that names a part of the first such sheet; a program comes from sheets that fit, with
areas that can be spread. Other areas end the fit with an error of their addition, a single one
stands for the same at every coarse cell, and where all shapes are right there is a program if there
are values to make it of. -/
theorem assemble_shapes (constraints : SparseMatrix α) (pairs : List (GroupId × Sheet α))
    (guess : Option (Tensor α)) (filling : Option α) (minimum : Option Number) :
    (∀ g, (lastValues pairs).find?
        (fun g => ¬ g.2.Fits constraints.rows constraints.cols) = some g →
      ∃ e, assemble constraints pairs guess filling minimum = .error e ∧ Sheet.IsMisfit g.1 e) ∧
    (∀ p, assemble constraints pairs guess filling minimum = .ok p → ∀ g ∈ lastValues pairs,
      g.2.Fits constraints.rows constraints.cols ∧ g.2.AreasFit constraints.rows) ∧
    (constraints.InBounds →
      (∀ g ∈ lastValues pairs, g.2.bare.Consistent constraints.rows constraints.cols) →
      (∃ g ∈ lastValues pairs, ¬ g.2.AreasFit constraints.rows) →
      assemble constraints pairs guess filling minimum = .error .invalidValue) ∧
    assemble constraints (pairs.map fun g => (g.1, g.2.spreadAreas)) guess filling minimum =
      assemble constraints pairs guess filling minimum ∧
    (constraints.InBounds →
      (∀ g ∈ lastValues pairs, g.2.spreadAreas.Consistent constraints.rows constraints.cols) →
      UsedFinite (lastValues pairs) → IsGuess constraints.cols guess filling →
      ∃ p, assemble constraints pairs guess filling minimum = .ok p) := by
  refine ⟨fun g hg => assemble_misfit hg guess filling minimum,
    fun p hp g hg => fits_of_assemble hp hg,
    fun hC hs hbad => assemble_misfitArea hC hs hbad guess filling minimum,
    assemble_spreadAreas constraints pairs guess filling minimum, fun hC hs hfinite hguess => ?_⟩
  have hlast := lastValues_map Sheet.spreadAreas pairs
  have hprep : Prepared constraints (pairs.map fun g => (g.1, g.2.spreadAreas)) minimum _ _ :=
    prepared_kept hC (by rw [hlast]; exact List.forall_mem_map.mpr hs) minimum
  rw [hlast] at hprep
  rw [← assemble_spreadAreas]
  refine assemble_ok hprep ?_ (by rwa [← hprep.cols_eq])
  exact List.forall_mem_map.mpr hfinite

/-- Two coarse cells, each constrained by a basis function of its own. -/
def twoConstraints : SparseMatrix Rat := ⟨2, 2, [⟨0, 0, 1⟩, ⟨1, 1, 1⟩]⟩

/-- A sheet of a fine cell in each coarse cell, with given areas. -/
def twoCells (areas : Tensor Rat) : List (GroupId × Sheet Rat) :=
  [(.text "s", {
      overlaps := ⟨2, 2, [⟨0, 0, 1⟩, ⟨1, 1, 1⟩]⟩
      interpolation := ⟨2, 2, [⟨0, 0, 1⟩, ⟨1, 1, 1⟩]⟩
      field := ⟨[2], #[1, 3]⟩
      areas := some areas })]

/-- With an area for each coarse cell there is a program, and three areas are too many. -/
theorem assemble_shapes_twoCells :
    (∃ p, assemble twoConstraints (twoCells ⟨[2], #[2, 2]⟩) none none none = .ok p) ∧
    assemble twoConstraints (twoCells ⟨[3], #[2, 2, 2]⟩) none none none = .error .invalidValue :=
  ⟨(assemble_shapes _ _ _ _ _).2.2.2.2 (by decide) (by decide)
    (fun _ _ _ _ => rfl) nofun,
    (assemble_shapes _ _ _ _ _).2.2.1 (by decide) (by decide) (by decide)⟩

/-- **An area of no coarse cell** is no misfit: a single one is taken for that of both. -/
theorem assemble_passes_singleArea : ∃ p, ([1] : List Nat) ≠ [twoConstraints.rows] ∧
    assemble twoConstraints (twoCells ⟨[1], #[2]⟩) none none none = .ok p ∧
    p.targets.values = #[1 / 2, 3 / 2] := by
  have hrun : (do
      let p ← assemble twoConstraints (twoCells ⟨[1], #[2]⟩) none none none
      return p.targets.values) = .ok #[(1 / 2 : Rat), 3 / 2] :=
    eq_ok_of_toOption (by decide +kernel)
  obtain ⟨p, hp, hrun⟩ := bind_eq_ok.mp hrun
  exact ⟨p, by decide, hp, Except.ok.inj hrun⟩

end FittingProblem

end Regrid

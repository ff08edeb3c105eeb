import Regrid.Proofs.Fitting.LeastSquares
import Regrid.Proofs.Packing.Grouped
import Regrid.Proofs.Packing.Matrix
import Regrid.Fitting.Problem

/-!
# The assembled program

Where the sheets of a fit are consistent with its constraints, no step of assembling a program
(`build_projection_problem`) fails but the two that look at values: the check of the fine fields,
and the start. `assemble_eq` says this and gives the program: the packings hold what the operators
use (`coarsePacking`, `finePacking`, `basisPacking`), and its parts are the operators at packed
indices (`Assembled`).
-/

namespace Regrid

variable {α : Type}

/-! ## Consistent sheets -/

/-- The operators and the field of a sheet have the shapes that the constraints ask for. -/
structure Sheet.Fits (s : Sheet α) (coarse basis : Nat) : Prop where
  overlaps : s.overlaps.rows = coarse
  interpolation : s.interpolation.rows = s.overlaps.cols ∧ s.interpolation.cols = basis
  field : s.field.shape = [s.overlaps.cols]

/-- The parts of a sheet fit together and to constraints of an extent, as `Sheet.check` demands, and
all values are there. -/
structure Sheet.Consistent (s : Sheet α) (coarse basis : Nat) : Prop where
  overlaps : s.overlaps.InBounds
  overlaps_rows : s.overlaps.rows = coarse
  interpolation : s.interpolation.InBounds
  interpolation_rows : s.interpolation.rows = s.overlaps.cols
  interpolation_cols : s.interpolation.cols = basis
  field_shape : s.field.shape = [s.overlaps.cols]
  field_size : s.field.values.size = s.overlaps.cols
  areas : ∀ a, s.areas = some a → a.shape = [coarse] ∧ a.values.size = coarse

namespace Sheet

instance (s : Sheet α) (coarse basis : Nat) : Decidable (s.Fits coarse basis) :=
  decidable_of_iff (s.overlaps.rows = coarse ∧
      (s.interpolation.rows = s.overlaps.cols ∧ s.interpolation.cols = basis) ∧
      s.field.shape = [s.overlaps.cols])
    ⟨fun ⟨h1, h2, h3⟩ => ⟨h1, h2, h3⟩, fun ⟨h1, h2, h3⟩ => ⟨h1, h2, h3⟩⟩

instance (s : Sheet α) (coarse basis : Nat) : Decidable (s.Consistent coarse basis) :=
  decidable_of_iff (s.overlaps.InBounds ∧ s.overlaps.rows = coarse ∧ s.interpolation.InBounds ∧
      s.interpolation.rows = s.overlaps.cols ∧ s.interpolation.cols = basis ∧
      s.field.shape = [s.overlaps.cols] ∧ s.field.values.size = s.overlaps.cols ∧
      ∀ a ∈ s.areas, a.shape = [coarse] ∧ a.values.size = coarse)
    ⟨fun ⟨h1, h2, h3, h4, h5, h6, h7, h8⟩ => ⟨h1, h2, h3, h4, h5, h6, h7, h8⟩,
      fun ⟨h1, h2, h3, h4, h5, h6, h7, h8⟩ => ⟨h1, h2, h3, h4, h5, h6, h7, h8⟩⟩

variable {s : Sheet α} {coarse basis : Nat}

theorem check_of_fits (h : s.Fits coarse basis) (id : GroupId) :
    s.check id coarse basis = .ok () := by
  unfold check
  simp only [h.overlaps, h.interpolation.1, h.interpolation.2, h.field, and_self, if_true]
  rfl

theorem Consistent.fits (h : s.Consistent coarse basis) : s.Fits coarse basis :=
  ⟨h.overlaps_rows, ⟨h.interpolation_rows, h.interpolation_cols⟩, h.field_shape⟩

theorem Consistent.check_eq (h : s.Consistent coarse basis) (id : GroupId) :
    s.check id coarse basis = .ok () :=
  check_of_fits h.fits id

theorem Consistent.usedCells_lt (h : s.Consistent coarse basis) {c : Nat} (hc : c ∈ s.usedCells) :
    c < s.overlaps.cols := by
  rcases List.mem_append.mp hc with hc | hc
  · obtain ⟨e, he, rfl⟩ := List.mem_map.mp hc
    exact (h.overlaps e he).2
  · obtain ⟨e, he, rfl⟩ := List.mem_map.mp hc
    rw [← h.interpolation_rows]
    exact (h.interpolation e he).1

theorem col_mem_usedCells {e : Entry α} (he : e ∈ s.overlaps.entries) : e.col ∈ s.usedCells :=
  List.mem_append_left _ (List.mem_map_of_mem he)

theorem row_mem_usedCells {e : Entry α} (he : e ∈ s.interpolation.entries) :
    e.row ∈ s.usedCells :=
  List.mem_append_right _ (List.mem_map_of_mem he)

section Areas

variable [Scalar α]

/-- The area of a coarse cell that the sheet covers. -/
def coveredArea (s : Sheet α) (i : Nat) : α :=
  match s.areas with
  | some a => a.values.getD i 0
  | none => Scalar.sum ((s.overlaps.entries.filter fun e => e.row = i).map Entry.value)

theorem Consistent.coveredAreas_eq (h : s.Consistent coarse basis) : ∃ areas,
    s.coveredAreas = .ok areas ∧ areas.size = coarse ∧
      ∀ i, i < coarse → areas.getD i 0 = s.coveredArea i := by
  unfold coveredAreas coveredArea
  cases harea : s.areas with
  | some a =>
    obtain ⟨hshape, hsize⟩ := h.areas a harea
    refine ⟨a.values, ?_, hsize, fun i _ => rfl⟩
    simp only
    rw [Tensor.spread, if_pos (by rw [hshape, h.overlaps_rows])]
  | none =>
    refine ⟨_, rfl, (SparseMatrix.size_bucketSums _ _).trans h.overlaps_rows, fun i hi => ?_⟩
    rw [SparseMatrix.rowSums, SparseMatrix.totals,
      SparseMatrix.getD_bucketSums (by rw [h.overlaps_rows]; exact hi), List.filter_map,
      List.map_map]
    rfl

end Areas

end Sheet

namespace FittingProblem

/-! ## Packings -/

/-- The packing of the coarse cells that are constrained. -/
def coarsePacking (kept : SparseMatrix α) : Packing :=
  Packing.used kept.rows (kept.entries.map Entry.row) "space1"

/-- The packing of the fine cells that an operator of their sheet touches. -/
def finePacking (sheets : List (GroupId × Sheet α)) : GroupPacking :=
  GroupPacking.used sheets (fun s => s.overlaps.cols) Sheet.usedCells "space2"

/-- The basis functions that take part in a constraint or an interpolation. -/
def usedBasis (kept : SparseMatrix α) (sheets : List (GroupId × Sheet α)) : List Nat :=
  kept.entries.map Entry.col ++ sheets.flatMap fun g => g.2.interpolation.entries.map Entry.col

/-- The packing of the basis functions. -/
def basisPacking (kept : SparseMatrix α) (sheets : List (GroupId × Sheet α)) : Packing :=
  Packing.used kept.cols (usedBasis kept sheets) "space3"

variable {kept : SparseMatrix α} {sheets : List (GroupId × Sheet α)} {g : GroupId × Sheet α}

theorem col_mem_basis (hg : g ∈ sheets) {e : Entry α} (he : e ∈ g.2.interpolation.entries) :
    e.col ∈ (basisPacking kept sheets).ids := by
  refine Packing.mem_used.mpr (List.mem_append_right _ (List.mem_flatMap.mpr ⟨g, hg, ?_⟩))
  exact List.mem_map_of_mem he

variable (sheets) in
theorem kept_col_mem_basis {e : Entry α} (he : e ∈ kept.entries) :
    e.col ∈ (basisPacking kept sheets).ids :=
  Packing.mem_used.mpr (List.mem_append_left _ (List.mem_map_of_mem he))

theorem kept_row_mem_coarse {e : Entry α} (he : e ∈ kept.entries) :
    e.row ∈ (coarsePacking kept).ids :=
  Packing.mem_used.mpr (List.mem_map_of_mem he)

/-- The sheets have different names and are consistent with the constraints. -/
structure Sheets (kept : SparseMatrix α) (sheets : List (GroupId × Sheet α)) : Prop where
  keyed : Keyed sheets
  inBounds : kept.InBounds
  consistent : ∀ g ∈ sheets, g.2.Consistent kept.rows kept.cols

/-- The entries of a sheet's overlaps in constrained coarse cells. -/
def constrained (kept : SparseMatrix α) (s : Sheet α) : List (Entry α) :=
  s.overlaps.entries.filter fun e => Packing.keeps (some (coarsePacking kept)) e.row

/-! ## Building the packings -/

section Packings

variable (h : Sheets kept sheets)
include h

theorem ofUsed_coarse :
    Packing.ofUsed kept.rows (kept.entries.map fun e => (e.row : Int)) "space1" =
      .ok (coarsePacking kept) := by
  have hfit : ∀ i ∈ kept.entries.map Entry.row, i < kept.rows := by
    intro i hi
    obtain ⟨e, he, rfl⟩ := List.mem_map.mp hi
    exact (h.inBounds e he).1
  rw [coarsePacking, ← Packing.ofUsed_eq hfit, List.map_map]
  rfl

theorem ofUsed_fine : GroupPacking.ofUsed (sheets.map fun g => (g.1, (g.2.overlaps.cols : Int)))
    (sheets.flatMap fun g => g.2.usedCells.map fun c : Nat => (g.1, Number.whole c)) "space2" =
    .ok (finePacking sheets) := by
  have hused : ∀ g ∈ sheets, ∀ c ∈ g.2.usedCells, c < g.2.overlaps.cols := fun g hg _ hc =>
    (h.consistent g hg).usedCells_lt hc
  exact @GroupPacking.ofUsed_eq _ sheets (fun s => s.overlaps.cols) Sheet.usedCells h.keyed hused _

theorem usedBasis_lt {j : Nat} (hj : j ∈ usedBasis kept sheets) : j < kept.cols := by
  rcases List.mem_append.mp hj with hj | hj
  · obtain ⟨e, he, rfl⟩ := List.mem_map.mp hj
    exact (h.inBounds e he).2
  · obtain ⟨g, hg, hj⟩ := List.mem_flatMap.mp hj
    obtain ⟨e, he, rfl⟩ := List.mem_map.mp hj
    rw [← (h.consistent g hg).interpolation_cols]
    exact ((h.consistent g hg).interpolation e he).2

theorem ofUsed_basis :
    Packing.ofUsed kept.cols ((usedBasis kept sheets).map fun id : Nat => (id : Int)) "space3" =
      .ok (basisPacking kept sheets) :=
  Packing.ofUsed_eq (fun _ hj => usedBasis_lt h hj) "space3"

omit h in
theorem pack_constraints : kept.pack (some (coarsePacking kept)) (some (basisPacking kept sheets))
    false = .ok ⟨(coarsePacking kept).size, (basisPacking kept sheets).size,
      kept.entries.map (Packing.relabel (some (coarsePacking kept))
        (some (basisPacking kept sheets)))⟩ :=
  SparseMatrix.pack_eq (Packing.translates_some rfl Packing.ordered_used)
    (Packing.translates_some rfl Packing.ordered_used) fun _ he => Bool.and_eq_true_iff.mpr
      ⟨Packing.keeps_iff.mpr (kept_row_mem_coarse he),
        Packing.keeps_iff.mpr (kept_col_mem_basis sheets he)⟩

end Packings

/-! ## Blocks -/

section Blocks

variable (h : Sheets kept sheets)
include h

/-- The packing of the fine cells of one sheet, and where its range begins. -/
theorem fine_cells (hg : g ∈ sheets) : ∃ cells first last,
    (finePacking sheets).groupPacking g.1 = .ok cells ∧
    (finePacking sheets).range g.1 = .ok (first, last) ∧
    Packing.Translates (some cells) g.2.overlaps.cols ∧
    ∀ c ∈ g.2.usedCells,
      c ∈ cells.ids ∧ cells.index c + first = (finePacking sheets).index g.1 c := by
  have hfit : ∀ c ∈ g.2.usedCells, c < g.2.overlaps.cols := fun c hc =>
    (h.consistent g hg).usedCells_lt hc
  have hcells : (finePacking sheets).groupPacking g.1 = .ok (Packing.used g.2.overlaps.cols
      (ascending g.2.usedCells) ("space2" ++ "[" ++ g.1.datum.plain ++ "]")) :=
    GroupPacking.groupPacking_eq h.keyed hg hfit
  obtain ⟨first, hrange, hindex⟩ : ∃ first, (finePacking sheets).range g.1 =
      .ok (first, first + (ascending g.2.usedCells).length) ∧ ∀ c ∈ g.2.usedCells,
        (ascending g.2.usedCells).idxOf c + first = (finePacking sheets).index g.1 c :=
    GroupPacking.range_eq h.keyed hg
  refine ⟨_, first, _, hcells, hrange, Packing.translates_some rfl Packing.ordered_used,
    fun c hc => ⟨?_, ?_⟩⟩
  · exact Packing.mem_used.mpr (mem_ascending.mpr hc)
  · rw [← hindex c hc, Packing.index, Packing.used, ascending_eq_self (sorted_ascending _)]

theorem overlapBlock_eq (hg : g ∈ sheets) :
    g.2.overlapBlock g.1 (coarsePacking kept) (finePacking sheets) =
      .ok ((constrained kept g.2).map fun e =>
        ⟨(coarsePacking kept).index e.row, (finePacking sheets).index g.1 e.col, e.value⟩) := by
  obtain ⟨cells, first, last, hcells, hrange, hcols, hindex⟩ := fine_cells h hg
  have hrows : Packing.Translates (some (coarsePacking kept)) g.2.overlaps.rows :=
    Packing.translates_some (congrArg Int.ofNat (h.consistent g hg).overlaps_rows.symm)
      Packing.ordered_used
  have hkeep : g.2.overlaps.entries.filter
      (Packing.keepsEntry (some (coarsePacking kept)) (some cells)) = constrained kept g.2 := by
    refine List.filter_congr fun e he => ?_
    rw [Packing.keepsEntry,
      Packing.keeps_iff.mpr (hindex e.col (Sheet.col_mem_usedCells he)).1, Bool.and_true]
  have hpack : g.2.overlaps.pack (some (coarsePacking kept)) (some cells) true = .ok
      ⟨(coarsePacking kept).size, cells.size, (constrained kept g.2).map
        (Packing.relabel (some (coarsePacking kept)) (some cells))⟩ := by
    rw [SparseMatrix.pack_dropping hrows hcols, hkeep]
    rfl
  unfold Sheet.overlapBlock
  rw [hcells, bind_ok, hrange, bind_ok]
  simp only
  rw [hpack, bind_ok]
  refine congrArg Except.ok ?_
  rw [List.map_map]
  refine List.map_congr_left fun e he => ?_
  rw [← (hindex e.col (Sheet.col_mem_usedCells (List.mem_filter.mp he).1)).2]
  rfl

theorem interpolationBlock_eq (hg : g ∈ sheets) :
    g.2.interpolationBlock g.1 (finePacking sheets) (basisPacking kept sheets) =
      .ok (g.2.interpolation.entries.map fun e => ⟨(finePacking sheets).index g.1 e.row,
        (basisPacking kept sheets).index e.col, e.value⟩) := by
  obtain ⟨cells, first, last, hcells, hrange, hrows, hindex⟩ := fine_cells h hg
  have hs := h.consistent g hg
  rw [← hs.interpolation_rows] at hrows
  have hcols : Packing.Translates (some (basisPacking kept sheets)) g.2.interpolation.cols :=
    Packing.translates_some (congrArg Int.ofNat hs.interpolation_cols.symm) Packing.ordered_used
  have hpack := SparseMatrix.pack_eq hrows hcols fun e he => Bool.and_eq_true_iff.mpr
    ⟨Packing.keeps_iff.mpr (hindex e.row (Sheet.row_mem_usedCells he)).1,
      Packing.keeps_iff.mpr (col_mem_basis hg he)⟩
  unfold Sheet.interpolationBlock
  rw [hcells, bind_ok, hrange, bind_ok]
  simp only
  rw [hpack, bind_ok]
  refine congrArg Except.ok ?_
  rw [List.map_map]
  refine List.map_congr_left fun e he => ?_
  rw [← (hindex e.row (Sheet.row_mem_usedCells he)).2]
  rfl

end Blocks

/-! ## Areas -/

section Areas

variable [Scalar α]

/-- The area of a coarse cell that the sheets cover together. -/
def coarseArea (sheets : List (GroupId × Sheet α)) (i : Nat) : α :=
  Scalar.sum (sheets.map fun g => g.2.coveredArea i)

theorem totalAreas_eq (h : Sheets kept sheets) : ∃ areas,
    totalAreas kept.rows sheets = .ok areas ∧ areas.size = kept.rows ∧
      ∀ i, i < kept.rows → areas.getD i 0 = coarseArea sheets i := by
  have hfold : ∀ (sheets : List (GroupId × Sheet α)),
      (∀ g ∈ sheets, g.2.Consistent kept.rows kept.cols) → ∀ acc : Array α, acc.size = kept.rows →
      ∃ areas, sheets.foldlM (fun acc g => do
          return Array.zipWith (· + ·) acc (← g.2.coveredAreas)) acc =
            (.ok areas : Except Error _) ∧
        areas.size = kept.rows ∧ ∀ i, i < kept.rows → areas.getD i 0 =
          (sheets.map fun g => g.2.coveredArea i).foldl (· + ·) (acc.getD i 0) := by
    intro sheets
    induction sheets with
    | nil => exact fun _ acc hacc => ⟨acc, rfl, hacc, fun i _ => rfl⟩
    | cons g sheets ih =>
      intro hg acc hacc
      obtain ⟨covered, hcovered, hsize, hvalues⟩ := (hg g List.mem_cons_self).coveredAreas_eq
      obtain ⟨areas, hareas, hsize', hvalues'⟩ := ih
        (fun k hk => hg k (List.mem_cons_of_mem g hk)) (Array.zipWith (· + ·) acc covered)
        (by rw [Array.size_zipWith, hacc, hsize, Nat.min_self])
      refine ⟨areas, ?_, hsize', fun i hi => ?_⟩
      · rw [List.foldlM_cons, hcovered]
        exact hareas
      · rw [hvalues' i hi, List.map_cons, List.foldl_cons]
        congr 1
        rw [← hvalues i hi]
        simp [Array.getD, hacc, hsize, hi]
  obtain ⟨areas, hareas, hsize, hvalues⟩ := hfold sheets h.consistent
    (Array.replicate kept.rows 0) Array.size_replicate
  refine ⟨areas, hareas, hsize, fun i hi => (hvalues i hi).trans ?_⟩
  rw [Array.getD_eq_getD_getElem?, Array.getElem?_replicate, if_pos hi, Option.getD_some]
  rfl

/-- One over the areas of the constrained coarse cells, at their packed indices. -/
theorem pack_areas (h : Sheets kept sheets) {areas : Array α} (hsize : areas.size = kept.rows) :
    ∃ packed, (coarsePacking kept).pack (Tensor.ofArray areas) = .ok packed ∧
      (packed.map reciprocal).shape = [(coarsePacking kept).size] ∧
      ∀ i ∈ (coarsePacking kept).ids,
        (packed.map reciprocal).values.getD ((coarsePacking kept).index i) 0 =
          reciprocal (areas.getD i 0) := by
  have hids : ∀ i ∈ (coarsePacking kept).ids, i < areas.size := by
    intro i hi
    obtain ⟨e, he, rfl⟩ := List.mem_map.mp (Packing.mem_used.mp hi)
    rw [hsize]
    exact (h.inBounds e he).1
  refine ⟨_, Packing.pack_vector (v := Tensor.ofArray areas) rfl
    (congrArg Int.ofNat hsize.symm) hids 0, ?_, fun i hi => ?_⟩
  · simp [Tensor.map, Tensor.ofArray, Packing.size]
  · have hmap : (((coarsePacking kept).ids.map fun id => areas.getD id 0).map reciprocal) =
        (coarsePacking kept).ids.map fun id => reciprocal (areas.getD id 0) := by
      rw [Array.map_map]
      rfl
    simp only [Tensor.map, Tensor.ofArray]
    rw [hmap, Packing.getD_map_index hi]

end Areas

/-! ## The parts of the program -/

section Parts

variable [Scalar α]

/-- The fields at the used fine cells, in packed order. -/
def fineField (sheets : List (GroupId × Sheet α)) : Array α :=
  ((GroupPacking.members sheets Sheet.usedCells).map fun m =>
    m.1.2.field.values.getD m.2 0).toArray

theorem size_fineField (sheets : List (GroupId × Sheet α)) :
    (fineField sheets).size = (finePacking sheets).size := by
  rw [fineField, List.size_toArray, List.length_map, finePacking, GroupPacking.size_used]

/-- What the field of a sheet has at a used cell stands at its packed index. -/
theorem getD_fineField (hkeys : Keyed sheets) (hg : g ∈ sheets) {c : Nat} (hc : c ∈ g.2.usedCells)
    (d : α) : (fineField sheets).getD ((finePacking sheets).index g.1 c) d =
      g.2.field.values.getD c 0 := by
  have hget : (GroupPacking.members sheets Sheet.usedCells)[(finePacking sheets).index g.1 c]? =
      some (g, c) := GroupPacking.getElem?_index hkeys hg hc
  rw [fineField, Array.getD_eq_getD_getElem?, List.getElem?_toArray, List.getElem?_map, hget,
    Option.map_some, Option.getD_some]

/-- The interpolation at all used fine cells. -/
def fineInterpolation (kept : SparseMatrix α) (sheets : List (GroupId × Sheet α)) :
    SparseMatrix α :=
  ⟨(finePacking sheets).size, (basisPacking kept sheets).size, sheets.flatMap fun g =>
    g.2.interpolation.entries.map fun e =>
      ⟨(finePacking sheets).index g.1 e.row, (basisPacking kept sheets).index e.col, e.value⟩⟩

/-- What the averages over the constrained coarse cells add up: of each cell its packed index, and
the share of a fine cell in its average. -/
def targetTerms (kept : SparseMatrix α) (sheets : List (GroupId × Sheet α)) : List (Nat × α) :=
  sheets.flatMap fun g => (constrained kept g.2).map fun e =>
    ((coarsePacking kept).index e.row,
      e.value * reciprocal (coarseArea sheets e.row) * g.2.field.values.getD e.col 0)

/-- The overlaps of the constrained coarse cells with all used fine cells. -/
def fineOverlaps (kept : SparseMatrix α) (sheets : List (GroupId × Sheet α)) : SparseMatrix α :=
  ⟨(coarsePacking kept).size, (finePacking sheets).size, sheets.flatMap fun g =>
    (constrained kept g.2).map fun e =>
      ⟨(coarsePacking kept).index e.row, (finePacking sheets).index g.1 e.col, e.value⟩⟩

/-- **The targets** are the averages of the fields over the constrained coarse cells. -/
theorem targets_eq (h : Sheets kept sheets) {areas : Array α}
    (hsize : areas.size = kept.rows)
    (hareas : ∀ i, i < kept.rows → areas.getD i 0 = coarseArea sheets i) :
    ∃ packed averages, (coarsePacking kept).pack (Tensor.ofArray areas) = .ok packed ∧
      (fineOverlaps kept sheets).scaleRows (packed.map reciprocal) = .ok averages ∧
      averages.apply (Tensor.ofArray (fineField sheets)) false =
        .ok ⟨(targetTerms kept sheets).length,
          SparseMatrix.bucketSums (coarsePacking kept).size (targetTerms kept sheets)⟩ := by
  obtain ⟨packed, hpacked, hshape, hshares⟩ := pack_areas h hsize
  refine ⟨packed, _, hpacked, if_pos hshape, ?_⟩
  have hterms : ((fineOverlaps kept sheets).entries.map fun e =>
      { e with value := e.value * (packed.map reciprocal).values.getD e.row 0 }).map
      (fun e => (e.row, e.value * (fineField sheets).getD e.col 0)) = targetTerms kept sheets := by
    rw [fineOverlaps, targetTerms, List.map_flatMap, List.map_flatMap]
    refine List.flatMap_congr fun g hg => ?_
    rw [List.map_map, List.map_map]
    refine List.map_congr_left fun e he => ?_
    obtain ⟨hentry, hkeep⟩ := List.mem_filter.mp he
    have hrow : e.row < kept.rows := by
      rw [← (h.consistent g hg).overlaps_rows]
      exact ((h.consistent g hg).overlaps e hentry).1
    simp only [Function.comp]
    rw [hshares e.row (Packing.keeps_iff.mp hkeep), hareas e.row hrow,
      getD_fineField h.keyed hg (Sheet.col_mem_usedCells hentry)]
  rw [SparseMatrix.apply_eq_totals (congrArg (fun n => [n]) (size_fineField sheets)), ← hterms]
  rfl

/-- The program of a fit, in packed numbers. -/
structure Assembled (kept : SparseMatrix α) (sheets : List (GroupId × Sheet α))
    (p : FittingProblem α) : Prop where
  coarse : p.coarse = coarsePacking kept
  fine : p.fine = finePacking sheets
  basis : p.basis = basisPacking kept sheets
  constraints : p.constraints = ⟨(coarsePacking kept).size, (basisPacking kept sheets).size,
    kept.entries.map (Packing.relabel (some (coarsePacking kept))
      (some (basisPacking kept sheets)))⟩
  targets : p.targets = ⟨(targetTerms kept sheets).length,
    SparseMatrix.bucketSums (coarsePacking kept).size (targetTerms kept sheets)⟩
  leastSquares : p.toQuadraticProgram.IsLeastSquares (fineInterpolation kept sheets)
    (fineField sheets)

/-- How the check of the fields names a fine cell. -/
def cellName (sheets : List (GroupId × Sheet α)) (i : Nat) : Option Datum :=
  ((finePacking sheets).pairs[i]?).map fun t => .tuple [t.1.datum, .int t.2]

theorem fineValues_eq (h : Sheets kept sheets) :
    fineValues (finePacking sheets) sheets = (do
      checkFinite "f2" (fineField sheets) (cellName sheets)
      return fineField sheets) := by
  have hpack : (finePacking sheets).pack (sheets.map fun g => (g.1, g.2.field)) =
      .ok (fineField sheets) :=
    GroupPacking.pack_eq h.keyed Sheet.field
      (fun g hg => (h.consistent g hg).field_shape) (fun g hg => (h.consistent g hg).field_size)
      (fun g hg c hc => (h.consistent g hg).usedCells_lt hc) 0
  exact bind_of_ok hpack _

/-- Constraints and sheets with those that take part: the constraints that are not dropped, and the
last sheet of each name. -/
structure Prepared (constraints : SparseMatrix α) (pairs : List (GroupId × Sheet α))
    (minimum : Option Number) (kept : SparseMatrix α) (sheets : List (GroupId × Sheet α)) : Prop
    extends Sheets kept sheets where
  kept_eq : minimum.elim constraints constraints.removeStarved = kept
  rows_eq : constraints.rows = kept.rows
  cols_eq : constraints.cols = kept.cols
  sheets_eq : lastValues pairs = sheets

omit [Scalar α] in
/-- Without a minimum all constraints take part. -/
theorem prepared_all {constraints : SparseMatrix α} {pairs : List (GroupId × Sheet α)}
    (hC : constraints.InBounds)
    (hs : ∀ g ∈ lastValues pairs, g.2.Consistent constraints.rows constraints.cols) :
    Prepared constraints pairs none constraints (lastValues pairs) :=
  ⟨⟨keyed_lastValues _, hC, hs⟩, rfl, rfl, rfl, rfl⟩

section Assembling

variable {constraints : SparseMatrix α} {pairs : List (GroupId × Sheet α)}
  {minimum : Option Number}

/-- **Assembling** consistent sheets and constraints fails only where it looks at values. -/
theorem assemble_eq (hprep : Prepared constraints pairs minimum kept sheets)
    (guess : Option (Tensor α)) (filling : Option α) :
    ∃ q : Tensor α → FittingProblem α,
      (∀ start, Assembled kept sheets (q start) ∧ (q start).start = start) ∧
      assemble constraints pairs guess filling minimum = (do
        checkFinite "f2" (fineField sheets) (cellName sheets)
        let start ← startingPoint (basisPacking kept sheets) guess filling
        return q start) := by
  have h := hprep.toSheets
  have hchecks : sheets.forM (fun g => g.2.check g.1 kept.rows kept.cols) = .ok () :=
    forM_ok fun g hg => (h.consistent g hg).check_eq g.1
  have hoverlaps : sheets.mapM (fun g =>
      g.2.overlapBlock g.1 (coarsePacking kept) (finePacking sheets)) = .ok _ :=
    mapM_ok fun g hg => overlapBlock_eq h hg
  have hinterpolations : sheets.mapM (fun g =>
      g.2.interpolationBlock g.1 (finePacking sheets) (basisPacking kept sheets)) = .ok _ :=
    mapM_ok fun g hg => interpolationBlock_eq h hg
  obtain ⟨areas, htotal, hasize, hareas⟩ := totalAreas_eq h
  obtain ⟨packed, averages, hpacked, hscaled, htargets⟩ := targets_eq h hasize hareas
  obtain ⟨square, lower, slopes, hsquare, hlower, hslopes⟩ :=
    QuadraticProgram.exists_leastSquares (X := fineInterpolation kept sheets)
      (size_fineField sheets)
  refine ⟨fun start => {
      lower
      linear := slopes.values.map fun v => -Scalar.ofNat 2 * v
      constant := Scalar.dot (fineField sheets) (fineField sheets)
      constraints := _
      targets := _
      start
      coarse := _
      fine := _
      basis := _ }, fun start => ⟨⟨rfl, rfl, rfl, rfl, rfl, ?_⟩, rfl⟩, ?_⟩
  · exact ⟨⟨square, hsquare, hlower⟩, ⟨slopes, hslopes, rfl⟩, rfl⟩
  · unfold assemble
    simp only [hprep.kept_eq, hprep.rows_eq, hprep.cols_eq, hprep.sheets_eq]
    refine (bind_of_ok hchecks _).trans ?_
    refine (bind_of_ok (ofUsed_coarse h) _).trans ?_
    refine (bind_of_ok (ofUsed_fine h) _).trans ?_
    refine (bind_of_ok (ofUsed_basis h) _).trans ?_
    refine (bind_of_ok pack_constraints _).trans ?_
    refine (bind_of_ok hoverlaps _).trans ?_
    refine (bind_of_ok hinterpolations _).trans ?_
    refine (bind_of_ok htotal _).trans ?_
    -- All steps so far have a result; the check of the values need not.
    rw [fineValues_eq h]
    cases checkFinite "f2" (fineField sheets) (cellName sheets) with
    | error e => rfl
    | ok =>
      refine (bind_of_ok hpacked _).trans ?_
      refine (bind_of_ok hscaled _).trans ?_
      refine (bind_of_ok hsquare _).trans ?_
      refine (bind_of_ok hlower _).trans ?_
      refine (bind_of_ok hslopes _).trans ?_
      refine (bind_of_ok htargets _).trans ?_
      rfl

/-- What is assembled has these parts. -/
theorem assembled_of_ok (h : Prepared constraints pairs minimum kept sheets)
    {guess : Option (Tensor α)} {filling : Option α} {p : FittingProblem α}
    (hp : assemble constraints pairs guess filling minimum = .ok p) : Assembled kept sheets p := by
  obtain ⟨q, hq, hassemble⟩ := assemble_eq h guess filling
  rw [hassemble] at hp
  obtain ⟨-, -, hp⟩ := bind_eq_ok.mp hp
  obtain ⟨start, -, hp⟩ := bind_eq_ok.mp hp
  rw [← Except.ok.inj hp]
  exact (hq start).1

end Assembling

end Parts

end FittingProblem

end Regrid

import Regrid.Proofs.Fitting.Existence

/-!
# What a fit minimises

The program of consistent sheets is found without a look-up that fails, and its objective at a
packed vector is the distance of the sheets' interpolations from their fields, squared and summed
over the fine cells that an operator touches (`assemble_objective`). The interpolations are those of
a vector for all basis functions: at the used ones it has what `FittingProblem.expand` writes there,
the others count for nothing.
-/

namespace Regrid

namespace FittingProblem

variable {kept : SparseMatrix Rat} {sheets : List (GroupId × Sheet Rat)}

/-! ## Full vectors -/

/-- A vector for all basis functions that has the values of a packed one at the used ones. -/
def Extends (kept : SparseMatrix Rat) (sheets : List (GroupId × Sheet Rat)) (x : Array Rat)
    (full : Nat → Rat) : Prop :=
  ∀ j ∈ usedBasis kept sheets, full j = x.getD ((basisPacking kept sheets).index j) 0

theorem expand_eq {p : FittingProblem Rat} (hp : Assembled kept sheets p) (h : Sheets kept sheets)
    {x : Array Rat} (hx : x.size = p.basis.size) (blank : Rat) :
    ∃ y, p.expand (Tensor.ofArray x) blank = .ok y ∧ y.shape = [kept.cols] ∧
      ∀ full : Nat → Rat, (∀ j ∈ usedBasis kept sheets, full j = y.values.getD j 0) →
        Extends kept sheets x full := by
  have hnodup : p.basis.ids.toList.Nodup := by
    rw [hp.basis]
    exact nodup_ascending _
  have hfull : p.basis.full = kept.cols := by
    rw [hp.basis]
    rfl
  obtain ⟨ys, hys, hsize, hvalues⟩ := Packing.unpack_vector (p := p.basis) (v := Tensor.ofArray x)
    (congrArg (fun n => [n]) hx) hx hnodup hfull blank 0
  refine ⟨_, hys, congrArg (fun n => [n]) hsize, fun full hfull j hj => ?_⟩
  rw [hfull j hj, ← hp.basis]
  refine (hvalues j (usedBasis_lt h hj)).trans (if_pos ?_)
  rw [hp.basis]
  exact Packing.mem_used.mpr hj

/-! ## The objective -/

theorem fineInterpolation_inBounds (kept : SparseMatrix Rat)
    (sheets : List (GroupId × Sheet Rat)) : (fineInterpolation kept sheets).InBounds := by
  intro e he
  obtain ⟨g, hg, he⟩ := List.mem_flatMap.mp he
  obtain ⟨e', he', rfl⟩ := List.mem_map.mp he
  exact ⟨GroupPacking.index_lt hg (Sheet.row_mem_usedCells he'),
    Packing.index_lt (col_mem_basis hg he')⟩

/-- **At a used fine cell** the packed interpolation is that of the cell's sheet. -/
theorem mulVec_fineInterpolation (h : Sheets kept sheets) {x : Array Rat} {full : Nat → Rat}
    (hfull : Extends kept sheets x full) {g : GroupId × Sheet Rat} (hg : g ∈ sheets) (c : Nat) :
    (fineInterpolation kept sheets).mulVec (fun j => x.getD j 0)
        ((finePacking sheets).index g.1 c) = g.2.interpolation.mulVec full c := by
  -- An index of another sheet is never that of a used cell of this one, so one block is left.
  have hblock : ∀ k ∈ sheets, ((k.2.interpolation.entries.map fun e =>
      (⟨(finePacking sheets).index k.1 e.row, (basisPacking kept sheets).index e.col, e.value⟩ :
        Entry Rat)).map fun e => if e.row = (finePacking sheets).index g.1 c then
          e.value * x.getD e.col 0 else 0).sum =
      if k.1 = g.1 then (k.2.interpolation.entries.map fun e =>
        if e.row = c then e.value * full e.col else 0).sum else 0 := by
    intro k hk
    have hentry : ∀ e ∈ k.2.interpolation.entries,
        (if (finePacking sheets).index k.1 e.row = (finePacking sheets).index g.1 c then
          e.value * x.getD ((basisPacking kept sheets).index e.col) 0 else 0) =
        if k.1 = g.1 then if e.row = c then e.value * full e.col else 0 else 0 := by
      intro e he
      have hindex : (finePacking sheets).index k.1 e.row = (finePacking sheets).index g.1 c ↔
          k.1 = g.1 ∧ e.row = c := GroupPacking.index_inj hk (Sheet.row_mem_usedCells he)
      rw [hfull e.col (Packing.mem_used.mp (col_mem_basis hk he)), if_congr hindex rfl rfl, ite_and]
    rw [List.map_map]
    refine (congrArg List.sum (List.map_congr_left hentry)).trans ?_
    split_ifs with hkey
    · rfl
    · exact List.sum_eq_zero fun v hv => by
        obtain ⟨-, -, rfl⟩ := List.mem_map.mp hv
        rfl
  calc
    _ = (sheets.map fun k => if k.1 = g.1 then (k.2.interpolation.entries.map fun e =>
          if e.row = c then e.value * full e.col else 0).sum else 0).sum := by
      rw [SparseMatrix.mulVec, ← SparseMatrix.sum_row (fineInterpolation_inBounds kept sheets),
        fineInterpolation, sum_map_flatMap]
      exact congrArg List.sum (List.map_congr_left hblock)
    _ = (g.2.interpolation.entries.map fun e =>
          if e.row = c then e.value * full e.col else 0).sum :=
      sum_map_key h.keyed hg fun k => (k.2.interpolation.entries.map fun e =>
        if e.row = c then e.value * full e.col else 0).sum
    _ = g.2.interpolation.mulVec full c :=
      SparseMatrix.sum_row (h.consistent g hg).interpolation c full

/-- The distance of the interpolations of a vector from the fields, squared. -/
def squaredDistance (sheets : List (GroupId × Sheet Rat)) (full : Nat → Rat) : Rat :=
  (sheets.map fun g => ∑ c ∈ g.2.usedCells.toFinset,
    (g.2.interpolation.mulVec full c - g.2.field.values.getD c 0) ^ 2).sum

theorem objective_assembled {p : FittingProblem Rat} (hp : Assembled kept sheets p)
    (h : Sheets kept sheets) {x : Array Rat} (hx : x.size = p.basis.size) {full : Nat → Rat}
    (hfull : Extends kept sheets x full) :
    p.objective (Tensor.ofArray x) = .ok (squaredDistance sheets full) := by
  have hsize : x.size = (fineInterpolation kept sheets).cols := by rw [hx, hp.basis]; rfl
  have hobjective := QuadraticProgram.objective_eq hp.leastSquares
    (fineInterpolation_inBounds kept sheets) (x := Tensor.ofArray x)
    (congrArg (fun n => [n]) hsize) hsize (size_fineField sheets)
  rw [hobjective]
  refine congrArg Except.ok ((GroupPacking.sum_packed h.keyed _).trans ?_)
  refine congrArg List.sum (List.map_congr_left fun g hg => Finset.sum_congr rfl fun c hc => ?_)
  rw [List.mem_toFinset] at hc
  exact congrArg (· ^ 2) (congrArg₂ (· - ·) (mulVec_fineInterpolation h hfull hg c)
    (getD_fineField h.keyed hg hc 0))

/-- **A fit minimises the distance** of the interpolations from the fields. Assembling consistent
sheets fails in no look-up, and not at all if the used values of the fields are finite and the guess
is one. -/
theorem assemble_objective :
    (∀ (α : Type) [Scalar α] (constraints : SparseMatrix α) (sheets : List (GroupId × Sheet α)),
      constraints.InBounds →
      (∀ g ∈ lastValues sheets, g.2.Consistent constraints.rows constraints.cols) →
      ∀ (guess : Option (Tensor α)) (filling : Option α),
        (∀ e, assemble constraints sheets guess filling none = .error e → ¬ e.IsLookup) ∧
        (UsedFinite (lastValues sheets) → IsGuess constraints.cols guess filling →
          ∃ p, assemble constraints sheets guess filling none = .ok p)) ∧
    ∀ (constraints : SparseMatrix Rat) (sheets : List (GroupId × Sheet Rat)),
      constraints.InBounds →
      (∀ g ∈ lastValues sheets, g.2.Consistent constraints.rows constraints.cols) →
      ∀ (guess : Option (Tensor Rat)) (filling : Option Rat) (p : FittingProblem Rat),
        assemble constraints sheets guess filling none = .ok p →
        ∀ x : Array Rat, x.size = p.basis.size → ∀ blank : Rat, ∃ y,
          p.expand (Tensor.ofArray x) blank = .ok y ∧ y.shape = [constraints.cols] ∧
          ∀ full : Nat → Rat,
            (∀ j ∈ usedBasis constraints (lastValues sheets), full j = y.values.getD j 0) →
            p.objective (Tensor.ofArray x) = .ok (squaredDistance (lastValues sheets) full) := by
  constructor
  · intro α _ constraints sheets hC hs guess filling
    have h := prepared_all hC hs
    exact ⟨fun e he => assemble_error h he, fun hfinite hguess => assemble_ok h hfinite hguess⟩
  · intro constraints sheets hC hs guess filling p hp x hx blank
    have h := prepared_all hC hs
    have hp := assembled_of_ok h hp
    obtain ⟨y, hy, hshape, hextends⟩ := expand_eq hp h.toSheets hx blank
    refine ⟨y, hy, hshape, fun full hfull => ?_⟩
    exact objective_assembled hp h.toSheets hx (hextends full hfull)

/-- Two sheets of two cells over two coarse cells. An overlap and an interpolation are stored twice,
no sheet interpolates the basis function `2`, and no operator touches the eastern cell `0`, unless
`outside` does, the overlaps with the coarse cell `1`. -/
def westEast (outside : List (Entry Rat)) (unused : Rat) : List (GroupId × Sheet Rat) :=
  [(.text "west", {
      overlaps := ⟨2, 2, [⟨0, 0, 1⟩, ⟨0, 0, 1⟩]⟩
      interpolation := ⟨2, 3, [⟨0, 0, 1⟩, ⟨0, 0, 1⟩, ⟨1, 1, 1⟩]⟩
      field := ⟨[2], #[1, 3]⟩
      areas := none }),
    (.text "east", {
      overlaps := ⟨2, 2, ⟨0, 1, 1⟩ :: outside⟩
      interpolation := ⟨2, 3, [⟨1, 1, -1⟩]⟩
      field := ⟨[2], #[unused, 5]⟩
      areas := none })]

theorem assemble_objective_westEast :
    ∃ p, assemble ⟨2, 3, [⟨0, 0, 1⟩]⟩ (westEast [] 7) none none none = .ok p ∧
      ∀ x : Array Rat, x.size = p.basis.size → ∃ y, p.expand (Tensor.ofArray x) 0 = .ok y ∧
        p.objective (Tensor.ofArray x) = .ok ((2 * y.values.getD 0 0 - 1) ^ 2 +
          (y.values.getD 1 0 - 3) ^ 2 + (-y.values.getD 1 0 - 5) ^ 2) := by
  obtain ⟨hassemble, hobjective⟩ := assemble_objective
  obtain ⟨p, hp⟩ := (hassemble Rat ⟨2, 3, [⟨0, 0, 1⟩]⟩ (westEast [] 7) (by decide) (by decide)
    none none).2 (fun _ _ _ _ => rfl) (fun _ h => by cases h)
  refine ⟨p, hp, fun x hx => ?_⟩
  obtain ⟨y, hy, -, hdistance⟩ := hobjective _ _ (by decide) (by decide) none none p hp x hx 0
  refine ⟨y, hy, (hdistance (fun j => y.values.getD j 0) fun _ _ => rfl).trans ?_⟩
  simp [squaredDistance, westEast, lastValues, assignKey, Sheet.usedCells, SparseMatrix.mulVec,
    SparseMatrix.dense_eq, Finset.sum_range_succ, one_add_one_eq_two]

end FittingProblem

end Regrid

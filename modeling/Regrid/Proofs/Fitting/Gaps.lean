import Regrid.Proofs.Finite
import Regrid.Proofs.Fitting.Dropped
import Regrid.Proofs.Fitting.Existence

/-!
# Fits of values that are not finite

A fit looks at the fields where an operator touches them, and at the guess where a basis function is
used. Whatever is not finite in the fields is refused and named (`check_finite`, `gaps`, in packed
order). A guess is refused only where a used value of it would be no number; then the infinite ones
are named as well (`startGaps`), but infinities alone pass (`assemble_passes_infinity`).

In exact arithmetic the program that is returned has finite slopes and a finite constant. Its
targets are finite unless an area is no number, and its start is finite unless the guess is
infinite somewhere (`assemble_gaps`).
-/

namespace Regrid

namespace FittingProblem

variable {α : Type} {kept : SparseMatrix α} {sheets : List (GroupId × Sheet α)}

/-! ## Packed values -/

/-- The values that a function has at the used basis functions, in packed order. -/
def packed (kept : SparseMatrix α) (sheets : List (GroupId × Sheet α)) (f : Nat → α) : Tensor α :=
  Tensor.ofArray ((ascending (usedBasis kept sheets)).map f).toArray

theorem any_packed (f : Nat → α) (p : α → Bool) : (packed kept sheets f).values.any p = true ↔
    ∃ j ∈ usedBasis kept sheets, p (f j) = true := by
  simp [packed, Tensor.ofArray, mem_ascending]

theorem map_packed (f : Nat → α) (g : α → α) :
    (packed kept sheets f).map g = packed kept sheets fun j => g (f j) := by
  simp [packed, Tensor.ofArray, Tensor.map, Function.comp_def]

theorem packed_congr {f g : Nat → α} (h : ∀ j ∈ usedBasis kept sheets, f j = g j) :
    packed kept sheets f = packed kept sheets g := by
  rw [packed, List.map_congr_left fun j hj => h j (mem_ascending.mp hj), packed]

variable [Scalar α] {constraints : SparseMatrix α} {pairs : List (GroupId × Sheet α)}
  {minimum : Option Number} {guess : Option (Tensor α)} {filling : Option α}

/-! ## Fields -/

/-- The used fine cells whose field is not finite, in packed order, each with its sheet. -/
def gaps (sheets : List (GroupId × Sheet α)) : List ((GroupId × Sheet α) × Nat) :=
  (GroupPacking.members sheets Sheet.usedCells).filter fun m =>
    !Scalar.isFinite (m.1.2.field.values.getD m.2 0)

/-- A fine cell by the names of its sheet and of itself. -/
def cellDatum (m : (GroupId × Sheet α) × Nat) : Datum := .tuple [m.1.1.datum, .int m.2]

theorem mem_gaps {g : GroupId × Sheet α} {c : Nat} : (g, c) ∈ gaps sheets ↔
    g ∈ sheets ∧ c ∈ g.2.usedCells ∧ Scalar.isFinite (g.2.field.values.getD c 0) = false := by
  rw [gaps, List.mem_filter, GroupPacking.mem_members, Bool.not_eq_true', and_assoc]

/-- **The check of the fields** names the gaps. -/
theorem checkFine_eq (sheets : List (GroupId × Sheet α)) :
    checkFinite "f2" (fineField sheets) (cellName sheets) =
      if gaps sheets = [] then .ok ()
      else .error (.nonFinite "f2" ((gaps sheets).map cellDatum)) := by
  have hname : cellName sheets =
      fun i => ((GroupPacking.members sheets Sheet.usedCells)[i]?).map cellDatum := by
    funext i
    rw [cellName, finePacking, GroupPacking.pairs_used, List.getElem?_map, Option.map_map]
    rfl
  rw [hname, fineField]
  exact checkFinite_eq "f2" cellDatum rfl

/-! ## Starts -/

/-- A guess has a value of any kind for each of `n` basis functions. -/
def GuessFits (n : Nat) (guess : Option (Tensor α)) : Prop :=
  ∀ v ∈ guess, v.shape = [n] ∧ v.values.size = n

theorem pack_guess (h : Sheets kept sheets) {v : Tensor α} (hv : GuessFits kept.cols (some v)) :
    (basisPacking kept sheets).pack v =
      .ok (packed kept sheets fun j => v.values.getD j 0) := by
  obtain ⟨hshape, hsize⟩ := hv v rfl
  rw [packed, ← List.map_toArray]
  exact Packing.pack_vector (by rw [hshape, hsize]) (by rw [hsize]; rfl)
    (fun id hid => by rw [hsize]; exact usedBasis_lt h (Packing.mem_used.mp hid)) 0

/-- Where the search starts at a basis function: at zero, or at the guess, in which the filling
stands in for what is no number. -/
def startValue (guess : Option (Tensor α)) (filling : Option α) (j : Nat) : α :=
  guess.elim 0 fun v =>
    if Scalar.isNaN (v.values.getD j 0) then filling.getD (v.values.getD j 0)
    else v.values.getD j 0

/-- The used basis functions at which the start is not finite. -/
def startGaps (kept : SparseMatrix α) (sheets : List (GroupId × Sheet α))
    (guess : Option (Tensor α)) (filling : Option α) : List Nat :=
  (ascending (usedBasis kept sheets)).filter fun j =>
    !Scalar.isFinite (startValue guess filling j)

theorem startValue_none (v : Tensor α) :
    startValue (some v) none = fun j => v.values.getD j 0 :=
  funext fun _ => ite_self _

theorem startingPoint_zero : startingPoint (basisPacking kept sheets) none filling =
    .ok (packed kept sheets (startValue none filling)) := by
  have hzero : ((ascending (usedBasis kept sheets)).map
      (startValue (none : Option (Tensor α)) filling)).toArray =
        Array.replicate (basisPacking kept sheets).size 0 := by
    rw [← List.toArray_replicate]
    exact congrArg List.toArray List.map_const'
  rw [packed, hzero]
  rfl

theorem startingPoint_filled (h : Sheets kept sheets) {v : Tensor α}
    (hv : GuessFits kept.cols (some v)) (w : α) :
    startingPoint (basisPacking kept sheets) (some v) (some w) =
      .ok (packed kept sheets (startValue (some v) (some w))) := by
  have hfilled : (packed kept sheets fun j => v.values.getD j 0).map
      (fun u => if Scalar.isNaN u then w else u) =
        packed kept sheets (startValue (some v) (some w)) := map_packed _ _
  unfold startingPoint
  simp only
  rw [pack_guess h hv, bind_ok]
  split_ifs with hnan
  · exact congrArg Except.ok hfilled
  · -- Where there is nothing to fill in, the filling leaves the guess as it is.
    refine congrArg Except.ok (packed_congr fun j hj => ?_)
    have hnumber : ¬ Scalar.isNaN (v.values.getD j 0) = true := fun hj' =>
      hnan ((any_packed _ _).mpr ⟨j, hj, hj'⟩)
    exact (if_neg hnumber).symm

section Starts

variable [LawfulScalar α]

/-- With a number to fill in, or without a guess, the start is made of numbers. -/
theorem isNaN_startValue {w : α} (hw : Scalar.isFinite w = true) (j : Nat) :
    Scalar.isNaN (startValue guess (some w) j) = false := by
  unfold startValue
  cases guess with
  | none => exact isNaN_of_isFinite LawfulScalar.isFinite_zero
  | some v =>
    show Scalar.isNaN (if Scalar.isNaN (v.values.getD j 0) = true then w
      else v.values.getD j 0) = false
    split_ifs with hnan
    · exact isNaN_of_isFinite hw
    · exact Bool.eq_false_of_not_eq_true hnan

/-- **The start** without a filling is refused where it would be no number, and then whatever is not
finite is named. -/
theorem startingPoint_unfilled (h : Sheets kept sheets) {v : Tensor α}
    (hv : GuessFits kept.cols (some v)) :
    startingPoint (basisPacking kept sheets) (some v) none =
      if ∃ j ∈ usedBasis kept sheets, Scalar.isNaN (v.values.getD j 0) = true then
        .error (.nonFinite "initial guess"
          ((startGaps kept sheets (some v) none).map fun j : Nat => Datum.int j))
      else .ok (packed kept sheets (startValue (some v) none)) := by
  unfold startingPoint
  simp only
  rw [pack_guess h hv, bind_ok, startValue_none]
  by_cases hnan : ∃ j ∈ usedBasis kept sheets, Scalar.isNaN (v.values.getD j 0) = true
  · have hgaps : startGaps kept sheets (some v) none ≠ [] := by
      obtain ⟨j, hj, hundefined⟩ := hnan
      refine List.ne_nil_of_mem (a := j) (List.mem_filter.mpr ⟨mem_ascending.mpr hj, ?_⟩)
      rw [startValue_none, LawfulScalar.isFinite_of_isNaN _ hundefined]
      rfl
    have hbad : ((ascending (usedBasis kept sheets)).filter fun j =>
        !Scalar.isFinite (v.values.getD j 0)) = startGaps kept sheets (some v) none := by
      rw [startGaps, startValue_none]
    have hcheck := checkFinite_eq "initial guess" (fun j : Nat => Datum.int j) hbad
    rw [if_pos hnan, if_pos ((any_packed _ _).mpr hnan)]
    refine bind_eq_error.mpr (Or.inl ((congrArg (checkFinite _ _) (funext fun i => ?_)).trans
      (hcheck.trans (if_neg hgaps))))
    have hget : (basisPacking kept sheets).ids[i]? = (ascending (usedBasis kept sheets))[i]? :=
      List.getElem?_toArray
    rw [hget]
    cases (ascending (usedBasis kept sheets))[i]? <;> rfl
  · rw [if_neg hnan, if_neg fun h => hnan ((any_packed _ _).mp h)]
    rfl

/-- **The start** is refused where a used value of it would be no number, and then whatever is not
finite is named. Infinities alone pass. -/
theorem startingPoint_eq (h : Sheets kept sheets) (hguess : GuessFits kept.cols guess)
    (hfilling : ∀ w ∈ filling, Scalar.isFinite w = true) :
    startingPoint (basisPacking kept sheets) guess filling =
      if ∃ j ∈ usedBasis kept sheets, Scalar.isNaN (startValue guess filling j) = true then
        .error (.nonFinite "initial guess"
          ((startGaps kept sheets guess filling).map fun j : Nat => Datum.int j))
      else .ok (packed kept sheets (startValue guess filling)) := by
  cases guess with
  | none =>
    have hzero : Scalar.isNaN (0 : α) = false := isNaN_of_isFinite LawfulScalar.isFinite_zero
    rw [if_neg fun ⟨_, _, hnan⟩ => Bool.false_ne_true (hzero.symm.trans hnan)]
    exact startingPoint_zero
  | some v =>
    cases filling with
    | none =>
      rw [startingPoint_unfilled h hguess]
      simp only [startValue_none]
    | some w =>
      have hnone : ¬ ∃ j ∈ usedBasis kept sheets,
          Scalar.isNaN (startValue (some v) (some w) j) = true := fun ⟨j, _, hnan⟩ =>
        Bool.false_ne_true ((isNaN_startValue (hfilling w rfl) j).symm.trans hnan)
      rw [if_neg hnone]
      exact startingPoint_filled h hguess w

end Starts

/-! ## Exact arithmetic -/

theorem gaps_eq_nil_iff : gaps sheets = [] ↔ UsedFinite sheets := by
  rw [List.eq_nil_iff_forall_not_mem]
  constructor
  · intro h g hg c hc
    by_contra hgap
    exact h (g, c) (mem_gaps.mpr ⟨hg, hc, Bool.eq_false_of_not_eq_true hgap⟩)
  · rintro h ⟨g, c⟩ hm
    obtain ⟨hg, hc, hgap⟩ := mem_gaps.mp hm
    cases hgap.symm.trans (h g hg c hc)

theorem startGaps_eq_nil_iff : startGaps kept sheets guess filling = [] ↔
    ∀ x ∈ (packed kept sheets (startValue guess filling)).values, Scalar.isFinite x = true := by
  simp [startGaps, packed, Tensor.ofArray]

section Exact

variable [ExactScalar α]

/-- One over an area is finite unless the area is no number. -/
theorem isFinite_reciprocal (x : α) : Scalar.isFinite (reciprocal x) = !Scalar.isNaN x := by
  unfold reciprocal
  split_ifs with hzero
  · rw [LawfulScalar.isFinite_zero]
    cases hnan : Scalar.isNaN x with
    | false => rfl
    | true => cases (ExactScalar.beq_of_isNaN x 0 hnan).symm.trans hzero
  · exact ExactScalar.isFinite_one_div x (Bool.eq_false_of_not_eq_true hzero)

variable {p : FittingProblem α} (hp : Assembled kept sheets p) (hfield : UsedFinite sheets)
include hp hfield

theorem constant_finite : Scalar.isFinite p.constant = true := by
  rw [hp.leastSquares.constant]
  exact isFinite_dot_self (fineField_finite hfield)

theorem linear_finite (hentries : ∀ g ∈ sheets, ∀ e ∈ g.2.interpolation.entries,
    Scalar.isFinite e.value = true) : ∀ x ∈ p.linear, Scalar.isFinite x = true := by
  obtain ⟨slopes, hslopes, hlinear⟩ := hp.leastSquares.linear
  have hshape : (Tensor.ofArray (fineField sheets)).shape =
      [(fineInterpolation kept sheets).transpose.cols] :=
    congrArg (fun n => [n]) (size_fineField sheets)
  rw [SparseMatrix.apply_eq_totals hshape] at hslopes
  rw [hlinear, ← Except.ok.inj hslopes]
  intro x hx
  obtain ⟨y, hy, rfl⟩ := Array.mem_map.mp hx
  rw [isFinite_mul_iff, ExactScalar.isFinite_neg]
  refine ⟨ExactScalar.isFinite_ofNat 2, isFinite_bucketSums ?_ y hy⟩
  intro t ht
  obtain ⟨mirrored, hmirrored, rfl⟩ := List.mem_map.mp ht
  obtain ⟨packed, hpacked, rfl⟩ := List.mem_map.mp hmirrored
  obtain ⟨g, hg, hsheet⟩ := List.mem_flatMap.mp hpacked
  obtain ⟨e, he, rfl⟩ := List.mem_map.mp hsheet
  exact isFinite_mul_iff.mpr ⟨hentries g hg e he,
    isFinite_getD (fun x hx => fineField_finite hfield x (Array.mem_def.mp hx)) _⟩

/-- **The targets** are finite unless the area of a constrained cell with an overlap is no
number. -/
theorem targets_finite_iff (hentries : ∀ g ∈ sheets, ∀ e ∈ g.2.overlaps.entries,
    Scalar.isFinite e.value = true) : (∀ x ∈ p.targets.values, Scalar.isFinite x = true) ↔
      ∀ g ∈ sheets, ∀ e ∈ g.2.overlaps.entries, e.row ∈ kept.entries.map Entry.row →
        Scalar.isNaN (coarseArea sheets e.row) = false := by
  have hrow : ∀ t ∈ targetTerms kept sheets, t.1 < (coarsePacking kept).size := by
    intro t ht
    obtain ⟨g, hg, ht⟩ := List.mem_flatMap.mp ht
    obtain ⟨e, he, rfl⟩ := List.mem_map.mp ht
    exact Packing.index_lt (Packing.keeps_iff.mp (List.mem_filter.mp he).2)
  have hterm : ∀ g ∈ sheets, ∀ e ∈ g.2.overlaps.entries,
      (Scalar.isFinite (e.value * reciprocal (coarseArea sheets e.row) *
        g.2.field.values.getD e.col 0) = true ↔
          Scalar.isNaN (coarseArea sheets e.row) = false) := by
    intro g hg e he
    rw [isFinite_mul_iff, isFinite_mul_iff, and_iff_right (hentries g hg e he),
      and_iff_left (hfield g hg e.col (Sheet.col_mem_usedCells he)), isFinite_reciprocal,
      Bool.not_eq_true']
  rw [hp.targets, bucketSums_finite_iff hrow]
  simp only [targetTerms, List.forall_mem_flatMap, List.forall_mem_map, constrained]
  refine forall₂_congr fun g hg => ?_
  constructor
  · intro hall e he hkept
    refine (hterm g hg e he).mp (hall e (List.mem_filter.mpr ⟨he, ?_⟩))
    exact Packing.keeps_iff.mpr (Packing.mem_used.mpr hkept)
  · intro hall e he
    obtain ⟨he, hkeep⟩ := List.mem_filter.mp he
    exact (hterm g hg e he).mpr (hall e he (Packing.mem_used.mp (Packing.keeps_iff.mp hkeep)))

end Exact

/-! ## Fits -/

/-- The entries of the operators of all sheets are finite. -/
def FiniteEntries (sheets : List (GroupId × Sheet α)) : Prop :=
  ∀ g ∈ sheets, ∀ e ∈ g.2.overlaps.entries ++ g.2.interpolation.entries,
    Scalar.isFinite e.value = true

section Outcomes

variable [LawfulScalar α]

/-- What becomes of a fit of values of any kind: gaps of the fields are named first, then those of
the start. -/
theorem assemble_outcome (h : Prepared constraints pairs minimum kept sheets)
    (hguess : GuessFits kept.cols guess) (hfilling : ∀ w ∈ filling, Scalar.isFinite w = true) :
    ∃ p, Assembled kept sheets p ∧ p.start = packed kept sheets (startValue guess filling) ∧
      assemble constraints pairs guess filling minimum =
        if gaps sheets = [] then
          if ∃ j ∈ usedBasis kept sheets, Scalar.isNaN (startValue guess filling j) = true then
            .error (.nonFinite "initial guess"
              ((startGaps kept sheets guess filling).map fun j : Nat => Datum.int j))
          else .ok p
        else .error (.nonFinite "f2" ((gaps sheets).map cellDatum)) := by
  obtain ⟨q, hq, hassemble⟩ := assemble_eq h guess filling
  refine ⟨q (packed kept sheets (startValue guess filling)), (hq _).1, (hq _).2, ?_⟩
  rw [hassemble, checkFine_eq, startingPoint_eq h.toSheets hguess hfilling]
  split_ifs <;> rfl

/-- **Values at unused places** do not matter, whatever they are. -/
theorem assemble_congr_used {pairs' : List (GroupId × Sheet α)}
    {sheets' : List (GroupId × Sheet α)} {guess' : Option (Tensor α)}
    (h : Prepared constraints pairs minimum kept sheets)
    (h' : Prepared constraints pairs' minimum kept sheets')
    (hagree : List.Forall₂ (fun g k => g.1 = k.1 ∧ g.2.AgreeUsed k.2) sheets sheets')
    (hguess : GuessFits kept.cols guess) (hguess' : GuessFits kept.cols guess')
    (hfilling : ∀ w ∈ filling, Scalar.isFinite w = true)
    (hstart : ∀ j ∈ usedBasis kept sheets,
      startValue guess filling j = startValue guess' filling j) :
    assemble constraints pairs guess filling minimum =
      assemble constraints pairs' guess' filling minimum := by
  have hpoint : startingPoint (basisPacking kept sheets) guess filling =
      startingPoint (basisPacking kept sheets) guess' filling := by
    have hgaps : startGaps kept sheets guess filling = startGaps kept sheets guess' filling :=
      List.filter_congr fun j hj => by rw [hstart j (mem_ascending.mp hj)]
    have hnan : (∃ j ∈ usedBasis kept sheets, Scalar.isNaN (startValue guess filling j) = true) ↔
        ∃ j ∈ usedBasis kept sheets, Scalar.isNaN (startValue guess' filling j) = true :=
      exists_congr fun j => and_congr_right fun hj => by rw [hstart j hj]
    rw [startingPoint_eq h.toSheets hguess hfilling, startingPoint_eq h.toSheets hguess' hfilling,
      hgaps, packed_congr hstart]
    exact if_congr hnan rfl rfl
  rw [← assemble_congr hagree h h' guess' filling]
  obtain ⟨q, hq, hassemble⟩ := assemble_eq h guess filling
  obtain ⟨q', hq', hassemble'⟩ := assemble_eq h guess' filling
  have hprogram : q = q' := funext fun start =>
    (hq start).1.unique (hq' start).1 ((hq start).2.trans (hq' start).2.symm)
  rw [hassemble, hassemble', hprogram, hpoint]

/-- **Values that are not finite.** Gaps of the fields are named first; then all of the start that
is not finite is, if some of it would be no number. Otherwise there is a program. Its slopes and
its constant are finite, its targets unless they divide by an area that is no number, and its start
unless it has infinities. Values at unused cells and basis functions change nothing. -/
theorem assemble_gaps (constraints : SparseMatrix α) (pairs : List (GroupId × Sheet α))
    (guess : Option (Tensor α)) (filling : Option α) (minimum : Option Number)
    (hC : constraints.InBounds)
    (hs : ∀ g ∈ lastValues pairs, g.2.Consistent constraints.rows constraints.cols)
    (hguess : GuessFits constraints.cols guess)
    (hfilling : ∀ w ∈ filling, Scalar.isFinite w = true)
    (hkept : keptConstraints constraints minimum = kept) (hsheets : lastValues pairs = sheets) :
    (gaps sheets ≠ [] → assemble constraints pairs guess filling minimum =
      .error (.nonFinite "f2" ((gaps sheets).map cellDatum))) ∧
    (gaps sheets = [] →
      (∃ j ∈ usedBasis kept sheets, Scalar.isNaN (startValue guess filling j) = true) →
      assemble constraints pairs guess filling minimum = .error (.nonFinite "initial guess"
        ((startGaps kept sheets guess filling).map fun j : Nat => Datum.int j))) ∧
    (gaps sheets = [] →
      (∀ j ∈ usedBasis kept sheets, Scalar.isNaN (startValue guess filling j) = false) →
      ∃ p, assemble constraints pairs guess filling minimum = .ok p ∧
        p.start = packed kept sheets (startValue guess filling)) ∧
    (ExactScalar α → FiniteEntries sheets →
      ∀ p, assemble constraints pairs guess filling minimum = .ok p →
        (∀ x ∈ p.linear, Scalar.isFinite x = true) ∧ Scalar.isFinite p.constant = true ∧
        ((∀ x ∈ p.targets.values, Scalar.isFinite x = true) ↔
          ∀ g ∈ sheets, ∀ e ∈ g.2.overlaps.entries, e.row ∈ kept.entries.map Entry.row →
            Scalar.isNaN (coarseArea sheets e.row) = false) ∧
        ((∀ x ∈ p.start.values, Scalar.isFinite x = true) ↔
          startGaps kept sheets guess filling = [])) ∧
    ∀ pairs' guess',
      (∀ g ∈ lastValues pairs', g.2.Consistent constraints.rows constraints.cols) →
      List.Forall₂ (fun g k => g.1 = k.1 ∧ g.2.AgreeUsed k.2) sheets (lastValues pairs') →
      GuessFits constraints.cols guess' →
      (∀ j ∈ usedBasis kept sheets,
        startValue guess filling j = startValue guess' filling j) →
      assemble constraints pairs guess filling minimum =
        assemble constraints pairs' guess' filling minimum := by
  have hprep : Prepared constraints pairs minimum kept sheets := by
    rw [← hkept, ← hsheets]
    exact prepared_kept hC hs minimum
  rw [hprep.cols_eq] at hguess
  obtain ⟨p, hp, hstart, hassemble⟩ := assemble_outcome hprep hguess hfilling
  refine ⟨fun hgaps => ?_, fun hgaps hnan => ?_, fun hgaps hnumbers => ?_,
    fun hexact hentries p' hp' => ?_, fun pairs' guess' hs' hagree hguess' hvalues => ?_⟩
  · rw [hassemble, if_neg hgaps]
  · rw [hassemble, if_pos hgaps, if_pos hnan]
  · have hnone : ¬ ∃ j ∈ usedBasis kept sheets,
        Scalar.isNaN (startValue guess filling j) = true := fun ⟨j, hj, hnan⟩ =>
      Bool.false_ne_true ((hnumbers j hj).symm.trans hnan)
    exact ⟨p, by rw [hassemble, if_pos hgaps, if_neg hnone], hstart⟩
  · rw [hassemble] at hp'
    split_ifs at hp' with hgaps hnan
    obtain rfl := Except.ok.inj hp'
    have hfield := gaps_eq_nil_iff.mp hgaps
    refine ⟨linear_finite hp hfield fun g hg e he =>
        hentries g hg e (List.mem_append_right _ he), constant_finite hp hfield,
      targets_finite_iff hp hfield fun g hg e he =>
        hentries g hg e (List.mem_append_left _ he), ?_⟩
    rw [hstart]
    exact startGaps_eq_nil_iff.symm
  · have hprep' := prepared_kept hC hs' minimum
    rw [hkept] at hprep'
    exact assemble_congr_used hprep hprep' hagree hguess (hprep.cols_eq ▸ hguess') hfilling hvalues

end Outcomes

/-! ## Runs with infinities -/

/-- A constraint of two basis functions. -/
def pairConstraint : SparseMatrix Extended := ⟨1, 2, [⟨0, 0, 1⟩, ⟨0, 1, 1⟩]⟩

/-- A sheet of two fine cells, each with a basis function of its own, and a third one that no
operator touches. -/
def pairSheet (first : Extended) : List (GroupId × Sheet Extended) :=
  [(.text "s", {
      overlaps := ⟨1, 3, [⟨0, 0, 1⟩, ⟨0, 1, 1⟩]⟩
      interpolation := ⟨3, 2, [⟨0, 0, 1⟩, ⟨1, 1, 1⟩]⟩
      field := ⟨[3], #[first, .number 3, .undefined]⟩
      areas := none })]

/-- A gap of the field is named; of a guess with a gap all that is not finite is; and with the gap
filled in, what is returned is finite. -/
theorem assemble_gaps_pair :
    assemble pairConstraint (pairSheet (.infinite true)) none none none =
      .error (.nonFinite "f2" [.tuple [.text "s", .int 0]]) ∧
    assemble pairConstraint (pairSheet 1) (some ⟨[2], #[.infinite false, .undefined]⟩) none none =
      .error (.nonFinite "initial guess" [.int 0, .int 1]) ∧
    ∃ p, assemble pairConstraint (pairSheet 1) (some ⟨[2], #[1, .undefined]⟩) (some (.number 2))
        none = .ok p ∧
      (∀ x ∈ p.linear, Scalar.isFinite x = true) ∧
      (∀ x ∈ p.targets.values, Scalar.isFinite x = true) ∧
      ∀ x ∈ p.start.values, Scalar.isFinite x = true := by
  have hfits : ∀ v : Tensor Extended, v.shape = [2] ∧ v.values.size = 2 →
      GuessFits pairConstraint.cols (some v) := fun v hv w hw => Option.some.inj hw ▸ hv
  refine ⟨?_, ?_, ?_⟩
  · have hgaps := assemble_gaps pairConstraint (pairSheet (.infinite true)) none none none
      (by decide) (by decide +kernel) nofun nofun rfl rfl
    exact hgaps.1 (by decide +kernel)
  · have hgaps := assemble_gaps pairConstraint (pairSheet 1)
      (some ⟨[2], #[.infinite false, .undefined]⟩) none none (by decide) (by decide +kernel)
      (hfits _ (by decide)) nofun rfl rfl
    exact hgaps.2.1 (by decide +kernel) (by decide +kernel)
  · have hgaps := assemble_gaps pairConstraint (pairSheet 1) (some ⟨[2], #[1, .undefined]⟩)
      (some (.number 2)) none (by decide) (by decide +kernel) (hfits _ (by decide))
      (by decide +kernel) rfl rfl
    obtain ⟨p, hp, -⟩ := hgaps.2.2.1 (by decide +kernel) (by decide +kernel)
    obtain ⟨hlinear, -, htargets, hstart⟩ :=
      hgaps.2.2.2.1 inferInstance (by unfold FiniteEntries; decide +kernel) p hp
    exact ⟨p, hp, hlinear, htargets.mpr (by decide +kernel), hstart.mpr (by decide +kernel)⟩

/-- **An infinite guess** passes where no value of the guess is no number. -/
theorem assemble_passes_infinity : ∃ p,
    assemble pairConstraint (pairSheet 1) (some ⟨[2], #[.infinite false, 1]⟩) none none = .ok p ∧
    p.start = ⟨[2], #[.infinite false, 1]⟩ := by
  have hrun : (do
      let p ← assemble pairConstraint (pairSheet 1) (some ⟨[2], #[.infinite false, 1]⟩) none none
      return p.start) = .ok ⟨[2], #[.infinite false, 1]⟩ :=
    eq_ok_of_toOption (by decide +kernel)
  obtain ⟨p, hp, hrun⟩ := bind_eq_ok.mp hrun
  exact ⟨p, hp, Except.ok.inj hrun⟩

end FittingProblem

end Regrid

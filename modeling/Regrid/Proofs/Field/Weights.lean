import Mathlib.Algebra.Order.BigOperators.Group.Finset
import Regrid.Proofs.Outcome
import Regrid.Proofs.Range
import Regrid.Proofs.Sparse.Extended

/-!
# Weights applied to fields with gaps

A stack of fields with gaps is averaged in different ways, depending on whether nothing is missing
in any of them, the same values are in all, or each has its own gaps. Averages over the values that
are there come to the same in the last two (`presentAverages_known`, `presentAverages_unknown`). If
no weight is negative and the total weights are known, the first way gives these averages, too
(`applyToStack_known`); if they are not known, it gives the sums (`applyToStack_unknown`).

For a matrix whose rows distribute one (`SparseMatrix.Stochastic`), of which all weight may be
missing, only cells without any value get no number (`applyToStack_extended`).
-/

namespace Regrid

open Extended (number)

/-! ## Combining vectors -/

section Combine

variable {α : Type} {n : Nat} {f g : Nat → α}

/-- The vector with given elements. -/
def tabulated (n : Nat) (f : Nat → α) : Array α := ((List.range n).map f).toArray

@[simp]
theorem size_tabulated (n : Nat) (f : Nat → α) : (tabulated n f).size = n := by
  simp [tabulated]

theorem getD_tabulated (f : Nat → α) {i : Nat} (hi : i < n) (d : α) :
    (tabulated n f).getD i d = f i :=
  getD_map_range hi f d

theorem tabulated_congr (h : ∀ i, i < n → f i = g i) : tabulated n f = tabulated n g :=
  congrArg List.toArray (List.map_congr_left fun i hi => h i (List.mem_range.mp hi))

theorem eq_tabulated {xs : Array α} {d : α} (hsize : xs.size = n)
    (h : ∀ i, i < n → xs.getD i d = f i) : xs = tabulated n f := by
  refine Array.ext (hsize.trans (size_tabulated n f).symm) fun i hi hi' => ?_
  have hvalue := (h i (hsize ▸ hi)).trans (getD_tabulated f (hsize ▸ hi) d).symm
  rwa [Array.getD_eq_getD_getElem?, Array.getD_eq_getD_getElem?, Array.getElem?_eq_getElem hi,
    Array.getElem?_eq_getElem hi', Option.getD_some, Option.getD_some] at hvalue

/-- Vectors of the same length are combined element by element. -/
theorem combine_tabulated [Scalar α] (op : α → α → α) (f g : Nat → α) :
    combine op (tabulated n f) (tabulated n g) = .ok (tabulated n fun i => op (f i) (g i)) := by
  have hrepeated : ∀ (f : Nat → α) (i : Nat), i < n → repeated (tabulated n f) i = f i := by
    intro f i hi
    have hplace : (if (tabulated n f).size = 1 then 0 else i) = i := by
      rw [size_tabulated]
      split_ifs
      · omega
      · rfl
    rw [repeated, hplace, getD_tabulated f hi]
  have hextent : commonExtent (tabulated n f).size (tabulated n g).size = .ok n := by
    rw [size_tabulated, size_tabulated, commonExtent, if_pos (.inl rfl)]
  rw [combine, hextent]
  exact congrArg Except.ok (tabulated_congr fun i hi => by rw [hrepeated f i hi, hrepeated g i hi])

end Combine

/-! ## What is there of a field -/

/-- One for what is there, zero for what is missing. -/
def Extended.present (x : Extended) : Rat := if Scalar.isNaN x then 0 else 1

theorem Extended.present_eq_zero {v : Extended} : v.present = 0 ↔ Scalar.isNaN v = true := by
  unfold Extended.present
  split_ifs with h
  · exact iff_of_true rfl h
  · exact iff_of_false one_ne_zero h

theorem Extended.present_nonneg (v : Extended) : 0 ≤ v.present := by
  unfold Extended.present
  split_ifs
  · exact le_rfl
  · exact zero_le_one

theorem Extended.present_le_one (v : Extended) : v.present ≤ 1 := by
  unfold Extended.present
  split_ifs
  · exact zero_le_one
  · exact le_rfl

/-- The missing value in place of what is no number. -/
def Extended.orMissing (v missing : Extended) : Extended := if Scalar.isNaN v then missing else v

theorem Extended.orMissing_undefined (v : Extended) : v.orMissing .undefined = v := by
  cases v <;> rfl

/-- What is no number shows as the missing value, and nothing else does that is another value. -/
theorem Extended.orMissing_eq_missing {missing v : Extended}
    (h : Scalar.isNaN v = true ∨ v ≠ missing) :
    v.orMissing missing = missing ↔ Scalar.isNaN v = true := by
  unfold orMissing
  split_ifs with hnan
  · exact iff_of_true rfl hnan
  · exact iff_of_false (h.resolve_left hnan) hnan

section Gaps

variable {x : Array Extended}

theorem getD_present {a : Nat} (ha : a < x.size) :
    (x.map Extended.present).getD a 0 = (x.getD a 0).present := by
  simp [Array.getD, ha]

theorem getD_present_nonneg (x : Array Extended) (a : Nat) :
    0 ≤ (x.map Extended.present).getD a 0 := by
  rcases Nat.lt_or_ge a x.size with ha | ha
  · rw [getD_present ha]
    exact Extended.present_nonneg _
  · simp [Array.getD, not_lt.mpr ha]

theorem getD_present_le_one (x : Array Extended) (a : Nat) :
    (x.map Extended.present).getD a 0 ≤ 1 := by
  rcases Nat.lt_or_ge a x.size with ha | ha
  · rw [getD_present ha]
    exact Extended.present_le_one _
  · simp [Array.getD, not_lt.mpr ha]

/-- What is missing has no value to count. -/
theorem getD_present_mul (x : Array Extended) (a : Nat) :
    (x.map Extended.present).getD a 0 * (x.getD a 0).toRat = (x.map Extended.toRat).getD a 0 := by
  rcases Nat.lt_or_ge a x.size with ha | ha
  · rw [getD_present ha]
    simp only [Array.getD, ha, Array.size_map, dif_pos, Array.getInternal_eq_getElem,
      Array.getElem_map]
    cases x[a] with
    | number q => exact one_mul q
    | infinite negative => exact one_mul 0
    | undefined => exact zero_mul 0
  · simp [Array.getD, not_lt.mpr ha]

theorem presence_eq (x : Array Extended) : presence x = (x.map Extended.present).map number := by
  unfold presence
  rw [Array.map_map]
  refine Array.map_congr_left fun v _ => ?_
  simp only [Function.comp, Extended.present]
  split_ifs <;> rfl

/-- A field of which every value is a number or missing. -/
def HasNumbers (x : Array Extended) : Prop :=
  ∀ v ∈ x, Scalar.isNaN v = true ∨ Scalar.isFinite v = true

/-- Zeros at the places of the gaps, where the field itself has none of its numbers. -/
theorem withoutGaps_eq {gapped : Array Extended}
    (hgaps : gapped.map Scalar.isNaN = x.map Scalar.isNaN) (hx : HasNumbers x) :
    withoutGaps gapped x = (x.map Extended.toRat).map number := by
  have hsize : gapped.size = x.size := by simpa using congrArg Array.size hgaps
  unfold withoutGaps
  refine Array.ext (by simp [hsize]) fun i hi hi' => ?_
  have hi : i < x.size := by simpa using hi'
  have higapped : i < gapped.size := hsize ▸ hi
  have hgap : Scalar.isNaN gapped[i] = Scalar.isNaN x[i] := by
    simpa [hi, higapped] using congrArg (fun gaps => gaps[i]?) hgaps
  simp only [Array.getElem_zipWith, Array.getElem_map, hgap]
  rcases hx x[i] (Array.getElem_mem hi) with hnan | hfinite
  · rw [if_pos hnan, show x[i] = .undefined from of_decide_eq_true hnan]
    rfl
  · rw [Extended.isFinite_iff.mp hfinite]
    rfl

theorem presence_congr {gapped : Array Extended}
    (hgaps : gapped.map Scalar.isNaN = x.map Scalar.isNaN) : presence gapped = presence x := by
  have hof : ∀ y : Array Extended,
      presence y = (y.map Scalar.isNaN).map fun gap => if gap then 0 else 1 := fun y => by
    rw [Array.map_map]
    rfl
  rw [hof, hof, hgaps]

/-- Where nothing is missing, the field is its numbers. -/
theorem eq_numbers_of_full (hx : HasNumbers x) (hfull : ¬ x.any Scalar.isNaN = true) :
    x = (x.map Extended.toRat).map number := by
  have hthere : ∀ v ∈ x, v = number v.toRat := fun v hv =>
    Extended.isFinite_iff.mp ((hx v hv).resolve_left fun hnan =>
      hfull (Array.any_eq_true'.mpr ⟨v, hv, hnan⟩))
  rw [Array.map_map]
  exact (Array.map_id x).symm.trans (Array.map_congr_left hthere)

/-- If nothing is missing in a stack, nothing is in one of its fields. -/
theorem full_of_mem {fields : List (Array Extended)}
    (hgap : ¬ (fields.any fun y => y.any Scalar.isNaN) = true) (hx : x ∈ fields) :
    ¬ x.any Scalar.isNaN = true :=
  fun hany => hgap (List.any_eq_true.mpr ⟨x, hx, hany⟩)

/-- A field with the gaps of all has those of each. -/
theorem map_isNaN_of_shared {gapped : Array Extended} : ∀ {fields : List (Array Extended)},
    sharedGaps? fields = some gapped →
    ∀ y ∈ fields, gapped.map Scalar.isNaN = y.map Scalar.isNaN
  | y :: ys, h => by
    rw [sharedGaps?] at h
    split_ifs at h with hall
    obtain rfl := Option.some.inj h
    rw [List.all_eq_true] at hall
    exact List.forall_mem_cons.mpr ⟨rfl, fun z hz => (beq_iff_eq.mp (hall z hz)).symm⟩

end Gaps

/-! ## Sums and averages over what is there -/

namespace SparseMatrix

variable {m : SparseMatrix Rat} {x : Array Extended}

/-- The sum of a row of the matrix: the weight when nothing is missing. -/
def weight (m : SparseMatrix Rat) (row : Nat) : Rat :=
  ∑ col ∈ Finset.range m.cols, m.dense row col

/-- The sum of the values that are there. -/
def presentSum (m : SparseMatrix Rat) (x : Array Extended) (row : Nat) : Rat :=
  m.mulVec (fun a => (x.map Extended.toRat).getD a 0) row

/-- The weight of the values that are there. -/
def presentWeight (m : SparseMatrix Rat) (x : Array Extended) (row : Nat) : Rat :=
  m.mulVec (fun a => (x.map Extended.present).getD a 0) row

/-- The average over the values that are there, and what is written where none is. -/
def meanOr (m : SparseMatrix Rat) (missing : Extended) (x : Array Extended) (row : Nat) :
    Extended :=
  if m.presentWeight x row = 0 then missing
  else number (m.presentSum x row / m.presentWeight x row)

/-- The average over the values that are there, if there is any weight and the part of the whole
weight that may be missing is not exceeded by more than a millionth. -/
def meanIfEnough (m : SparseMatrix Rat) (threshold : Rat) (x : Array Extended) (row : Nat) :
    Extended :=
  if m.presentWeight x row = 0 ∨
      m.presentWeight x row / m.weight row < 1 - threshold - 1 / 1000000 then .undefined
  else number (m.presentSum x row / m.presentWeight x row)

section Merged

variable (m x)

theorem weight_sumDuplicates (row : Nat) : m.sumDuplicates.weight row = m.weight row :=
  Finset.sum_congr rfl fun col _ => dense_sumDuplicates m row col

theorem presentSum_sumDuplicates (row : Nat) :
    m.sumDuplicates.presentSum x row = m.presentSum x row :=
  mulVec_sumDuplicates ..

theorem presentWeight_sumDuplicates (row : Nat) :
    m.sumDuplicates.presentWeight x row = m.presentWeight x row :=
  mulVec_sumDuplicates ..

theorem meanOr_sumDuplicates (missing : Extended) :
    m.sumDuplicates.meanOr missing x = m.meanOr missing x := by
  funext row
  unfold meanOr
  rw [presentSum_sumDuplicates, presentWeight_sumDuplicates]

theorem meanIfEnough_sumDuplicates (threshold : Rat) :
    m.sumDuplicates.meanIfEnough threshold x = m.meanIfEnough threshold x := by
  funext row
  unfold meanIfEnough
  rw [presentSum_sumDuplicates, presentWeight_sumDuplicates, weight_sumDuplicates]

end Merged

theorem isNaN_meanOr {row : Nat} :
    Scalar.isNaN (m.meanOr .undefined x row) = true ↔ m.presentWeight x row = 0 := by
  unfold meanOr
  split_ifs with hw
  · exact iff_of_true rfl hw
  · exact iff_of_false Bool.false_ne_true hw

theorem meanOr_eq_orMissing (missing : Extended) (row : Nat) :
    m.meanOr missing x row = (m.meanOr .undefined x row).orMissing missing := by
  unfold meanOr
  split_ifs <;> rfl

/-- An average is the sum where the weight is one or the sum is zero. -/
theorem meanOr_eq_sum_iff {row : Nat} :
    m.meanOr .undefined x row = number (m.presentSum x row) ↔
      m.presentWeight x row ≠ 0 ∧ (m.presentWeight x row = 1 ∨ m.presentSum x row = 0) := by
  unfold meanOr
  split_ifs with hw
  · exact iff_of_false nofun fun h => h.1 hw
  · rw [Extended.number.injEq, div_eq_iff hw, eq_comm, mul_right_eq_self₀]
    exact (and_iff_right hw).symm

/-- Where nothing is missing, all of the weight is there. -/
theorem presentWeight_full (hcols : x.size = m.cols) (hfull : ¬ x.any Scalar.isNaN = true)
    (row : Nat) : m.presentWeight x row = m.weight row := by
  rw [weight, presentWeight, mulVec]
  refine Finset.sum_congr rfl fun a ha => ?_
  have ha : a < x.size := (Finset.mem_range.mp ha).trans_eq hcols.symm
  have hthere : ¬ Scalar.isNaN x[a] = true := fun hnan =>
    hfull (Array.any_eq_true.mpr ⟨a, ha, hnan⟩)
  rw [getD_present ha, Array.getD_eq_getD_getElem?, Array.getElem?_eq_getElem ha,
    Option.getD_some, Extended.present, if_neg hthere, mul_one]

section Nonneg

variable (hnonneg : ∀ row col, 0 ≤ m.dense row col)
include hnonneg

theorem presentWeight_nonneg (row : Nat) : 0 ≤ m.presentWeight x row :=
  Finset.sum_nonneg fun a _ => mul_nonneg (hnonneg row a) (getD_present_nonneg x a)

/-- Without negative weights, no more weight is there than the whole. -/
theorem presentWeight_le (row : Nat) : m.presentWeight x row ≤ m.weight row :=
  Finset.sum_le_sum fun a _ =>
    mul_le_of_le_one_right (hnonneg row a) (getD_present_le_one x a)

/-- And values without weight sum to nothing. -/
theorem presentSum_eq_zero {row : Nat} (hw : m.presentWeight x row = 0) :
    m.presentSum x row = 0 := by
  have hterms : ∀ a ∈ Finset.range m.cols,
      m.dense row a * (x.map Extended.present).getD a 0 = 0 :=
    (Finset.sum_eq_zero_iff_of_nonneg fun a _ =>
      mul_nonneg (hnonneg row a) (getD_present_nonneg x a)).mp hw
  unfold presentSum mulVec
  refine Finset.sum_eq_zero fun a ha => ?_
  show m.dense row a * (x.map Extended.toRat).getD a 0 = 0
  rw [← getD_present_mul x a, ← mul_assoc, hterms a ha, zero_mul]

end Nonneg

theorem leastPart_number (threshold : Rat) :
    (leastPart (number threshold) : Extended) = number (1 - threshold - 1 / 1000000) := by
  have hmillionth : (Scalar.ratio 1 1000000 : Extended) = number (1 / 1000000) := by decide +kernel
  rw [leastPart, hmillionth, Extended.number_one, Extended.number_sub, Extended.number_sub]

/-- A quotient of sums is taken where there is some weight. -/
theorem quotient_eq_meanOr (row : Nat) :
    (if number (m.presentWeight x row) == 0 then Scalar.undefined
      else number (m.presentSum x row) / number (m.presentWeight x row)) =
      m.meanOr .undefined x row := by
  have hzero : (number (m.presentWeight x row) == 0) = (m.presentWeight x row == 0) :=
    Extended.number_beq
  rw [hzero, meanOr]
  by_cases hw : m.presentWeight x row = 0
  · rw [if_pos (beq_iff_eq.mpr hw), if_pos hw]
    rfl
  · rw [if_neg (mt beq_iff_eq.mp hw), if_neg hw, Extended.number_div hw]

/-- And it is kept where the weight is a large enough part of the whole. Where there is none, the
part may be no number, and decides nothing. -/
theorem quotient_eq_meanIfEnough (hnonneg : ∀ row col, 0 ≤ m.dense row col) (threshold : Rat)
    (row : Nat) :
    (if number (m.presentWeight x row) == 0 then Scalar.undefined
      else if number (m.presentWeight x row) / number (m.weight row) < leastPart (number threshold)
        then Scalar.undefined
        else number (m.presentSum x row) / number (m.presentWeight x row)) =
      m.meanIfEnough threshold x row := by
  have hzero : (number (m.presentWeight x row) == 0) = (m.presentWeight x row == 0) :=
    Extended.number_beq
  rw [hzero, leastPart_number, meanIfEnough]
  by_cases hw : m.presentWeight x row = 0
  · rw [if_pos (beq_iff_eq.mpr hw), if_pos (Or.inl hw)]
    rfl
  · have hweight : m.weight row ≠ 0 := fun hnone =>
      hw (le_antisymm (hnone ▸ presentWeight_le hnonneg row) (presentWeight_nonneg hnonneg row))
    rw [if_neg (mt beq_iff_eq.mp hw), Extended.number_div hweight, Extended.number_div hw]
    exact if_congr (Extended.number_lt.trans (or_iff_right hw).symm) rfl rfl

/-- Where all of the weight is there, none of it is refused. -/
theorem quotient_full (hnonneg : ∀ row col, 0 ≤ m.dense row col) {threshold : Rat}
    (hthreshold : 0 ≤ threshold) {row : Nat} (hfull : m.presentWeight x row = m.weight row) :
    number (m.presentSum x row) / number (m.weight row) = m.meanIfEnough threshold x row := by
  rw [meanIfEnough, ← hfull]
  by_cases hw : m.presentWeight x row = 0
  · rw [if_pos (Or.inl hw), presentSum_eq_zero hnonneg hw, hw]
    rfl
  · have hkept : ¬ (m.presentWeight x row = 0 ∨
        m.presentWeight x row / m.presentWeight x row < 1 - threshold - 1 / 1000000) := by
      rw [or_iff_right hw, div_self hw]
      linarith
    rw [if_neg hkept, Extended.number_div hw]

/-! ## Products with fields -/

section Products

variable (h : m.InBounds)
include h

theorem times_presence (x : Array Extended) : m.extended.times (presence x) =
    tabulated m.rows fun row => number (m.presentWeight x row) := by
  rw [presence_eq]
  exact eq_tabulated (size_times ..) fun _ hr => getD_times_extended h _ hr

theorem times_numbers (x : Array Extended) :
    m.extended.times ((x.map Extended.toRat).map number) =
      tabulated m.rows fun row => number (m.presentSum x row) :=
  eq_tabulated (size_times ..) fun _ hr => getD_times_extended h _ hr

theorem rowSums_eq_tabulated :
    m.extended.rowSums.values = tabulated m.rows fun row => number (m.weight row) := by
  refine eq_tabulated (d := 0) (size_bucketSums ..) fun row hr => ?_
  rw [getD_rowSums_extended hr, getD_rowSums h hr, weight]

section Gaps

variable {gapped : Array Extended} (hgaps : gapped.map Scalar.isNaN = x.map Scalar.isNaN)
  (hx : HasNumbers x)
include hgaps hx

/-- **Averages over what is there**, if the whole weight is not known. -/
theorem presentAverages_unknown (threshold : Extended) :
    m.extended.presentAverages ⟨true, none, threshold⟩ gapped x =
      .ok (tabulated m.rows (m.meanOr .undefined x)) := by
  unfold presentAverages
  simp only [withoutGaps_eq hgaps hx, presence_congr hgaps, times_presence h, times_numbers h,
    combine_tabulated, bind_ok, pure_bind]
  exact congrArg Except.ok (tabulated_congr fun row _ => quotient_eq_meanOr row)

/-- **Averages over enough of what is there**, if the whole weight is known. -/
theorem presentAverages_known (hnonneg : ∀ row col, 0 ≤ m.dense row col) (threshold : Rat) :
    m.extended.presentAverages
        ⟨true, some (tabulated m.rows fun row => number (m.weight row)), number threshold⟩
        gapped x =
      .ok (tabulated m.rows (m.meanIfEnough threshold x)) := by
  unfold presentAverages
  simp only [withoutGaps_eq hgaps hx, presence_congr hgaps, times_presence h, times_numbers h,
    combine_tabulated, bind_ok]
  exact congrArg Except.ok (tabulated_congr fun row _ =>
    quotient_eq_meanIfEnough hnonneg threshold row)

end Gaps

/-! ## Stacks -/

section Stacks

variable {fields : List (Array Extended)} (hfields : ∀ x ∈ fields, HasNumbers x)
include hfields

/-- **A stack whose whole weights are known**: whatever is missing in other fields, every field is
averaged over what is there of it. -/
theorem applyToStack_known (hnonneg : ∀ row col, 0 ≤ m.dense row col) {threshold : Rat}
    (hthreshold : 0 ≤ threshold) (hcols : ∀ x ∈ fields, x.size = m.cols) :
    m.extended.applyToStack
        ⟨true, some (tabulated m.rows fun row => number (m.weight row)), number threshold⟩ fields =
      .ok (fields.map fun x => tabulated m.rows (m.meanIfEnough threshold x)) := by
  unfold applyToStack
  simp only [Bool.not_true, Bool.false_eq_true, if_false]
  split_ifs with hgap
  · cases hshared : sharedGaps? fields with
    | some gapped => exact mapM_ok fun x hx =>
        presentAverages_known h (map_isNaN_of_shared hshared x hx) (hfields x hx) hnonneg threshold
    | none => exact mapM_ok fun x hx =>
        presentAverages_known h rfl (hfields x hx) hnonneg threshold
  · have hextent : commonExtent m.extended.rows
        (tabulated m.rows fun row => number (m.weight row)).size = .ok m.rows := by
      rw [size_tabulated]
      exact if_pos (Or.inl rfl)
    rw [hextent]
    refine mapM_ok fun x hx => ?_
    have hfull := full_of_mem hgap hx
    rw [eq_numbers_of_full (hfields x hx) hfull, times_numbers h, combine_tabulated,
      ← eq_numbers_of_full (hfields x hx) hfull]
    exact congrArg Except.ok (tabulated_congr fun row _ =>
      quotient_full hnonneg hthreshold (presentWeight_full (hcols x hx) hfull row))

/-- **A stack whose whole weights are not known**: the fields are averaged if anything is missing in
any of them, and summed if nothing is. -/
theorem applyToStack_unknown (threshold : Extended) :
    m.extended.applyToStack ⟨true, none, threshold⟩ fields =
      .ok (fields.map fun x => tabulated m.rows
        (if fields.any (fun y => y.any Scalar.isNaN) then m.meanOr .undefined x
          else fun row => number (m.presentSum x row))) := by
  unfold applyToStack
  simp only [Bool.not_true, Bool.false_eq_true, if_false]
  split_ifs with hgap
  · cases hshared : sharedGaps? fields with
    | some gapped => exact mapM_ok fun x hx =>
        presentAverages_unknown h (map_isNaN_of_shared hshared x hx) (hfields x hx) threshold
    | none => exact mapM_ok fun x hx => presentAverages_unknown h rfl (hfields x hx) threshold
  · refine congrArg Except.ok (List.map_congr_left fun x hx => ?_)
    have hnumbers := eq_numbers_of_full (hfields x hx) (full_of_mem hgap hx)
    rw [hnumbers, times_numbers h, ← hnumbers]

end Stacks

end Products

/-- If the whole weights are not known, a field comes out of a stack as it does alone just if it has
a gap itself, no field has one, or the average over all of the row is the sum. -/
theorem beside_eq_alone_iff {fields : List (Array Extended)} (hx : x ∈ fields)
    (hcols : x.size = m.cols) (row : Nat) :
    (if fields.any (fun y => y.any Scalar.isNaN) then m.meanOr .undefined x
        else fun row => number (m.presentSum x row)) row =
      (if [x].any (fun y => y.any Scalar.isNaN) then m.meanOr .undefined x
        else fun row => number (m.presentSum x row)) row ↔
    x.any Scalar.isNaN = true ∨ (∀ y ∈ fields, y.any Scalar.isNaN = false) ∨
      m.weight row ≠ 0 ∧ (m.weight row = 1 ∨ m.presentSum x row = 0) := by
  have halone : [x].any (fun y => y.any Scalar.isNaN) = x.any Scalar.isNaN := by simp
  rw [halone]
  by_cases hgap : x.any Scalar.isNaN = true
  · have hstack : fields.any (fun y => y.any Scalar.isNaN) = true :=
      List.any_eq_true.mpr ⟨x, hx, hgap⟩
    rw [if_pos hstack, if_pos hgap]
    exact iff_of_true rfl (.inl hgap)
  · have hnone : fields.any (fun y => y.any Scalar.isNaN) = false ↔
        ∀ y ∈ fields, y.any Scalar.isNaN = false := by
      simp only [List.any_eq_false, Bool.not_eq_true]
    rw [if_neg hgap, or_iff_right hgap, ← hnone]
    split_ifs with hstack
    · rw [or_iff_right (Bool.eq_false_iff.not_left.mpr hstack), meanOr_eq_sum_iff,
        presentWeight_full hcols hgap]
    · exact iff_of_true rfl (.inl (Bool.eq_false_iff.mpr hstack))

/-! ## Matrices that average -/

/-- Every row distributes one: the matrix takes averages. -/
structure Stochastic (m : SparseMatrix Rat) : Prop where
  inBounds : m.InBounds
  nonneg : ∀ row col, 0 ≤ m.dense row col
  sum_row : ∀ row, row < m.rows → ∑ col ∈ Finset.range m.cols, m.dense row col = 1

theorem Stochastic.sumDuplicates (h : m.Stochastic) : m.sumDuplicates.Stochastic where
  inBounds := h.inBounds.sumDuplicates
  nonneg row col := dense_sumDuplicates m row col ▸ h.nonneg row col
  sum_row row hr := by
    simp only [dense_sumDuplicates]
    exact h.sum_row row hr

/-- If all of the weight may be missing, what is there is enough. -/
theorem meanIfEnough_one (hnonneg : ∀ row col, 0 ≤ m.dense row col) (row : Nat) :
    m.meanIfEnough 1 x row = m.meanOr .undefined x row := by
  have hweight : 0 ≤ m.weight row := Finset.sum_nonneg fun a _ => hnonneg row a
  have hpart : 0 ≤ m.presentWeight x row / m.weight row :=
    div_nonneg (presentWeight_nonneg hnonneg row) hweight
  rw [meanIfEnough, meanOr]
  exact if_congr (or_iff_left (by linarith)) rfl rfl

/-- **Averages over what is there** are taken whether something is missing or nothing is: without
gaps the values are divided by all of the weight instead, which is one. -/
theorem applyToStack_extended (h : m.Stochastic) (hx : HasNumbers x) {totals : Array Extended}
    (hsize : totals.size = m.rows) (htotals : ∀ row, row < m.rows → totals.getD row 0 = 1)
    (hcols : x.size = m.cols) :
    ∃ y, m.extended.applyToStack ⟨true, some totals, 1⟩ [x] = .ok [y] ∧ y.size = m.rows ∧
      ∀ row, row < m.rows → y.getD row 0 = m.meanOr .undefined x row := by
  have htabulated : totals = tabulated m.rows fun row => number (m.weight row) :=
    eq_tabulated hsize fun row hr => by
      rw [htotals row hr, weight, h.sum_row row hr]
      rfl
  have hstack := applyToStack_known h.inBounds (List.forall_mem_singleton.mpr hx) h.nonneg
    zero_le_one (List.forall_mem_singleton.mpr hcols)
  rw [← htabulated] at hstack
  refine ⟨_, hstack, size_tabulated .., fun row hr => ?_⟩
  rw [getD_tabulated _ hr, meanIfEnough_one h.nonneg]

end SparseMatrix

end Regrid

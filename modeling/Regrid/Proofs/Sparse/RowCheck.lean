import Regrid.Proofs.Outcome
import Regrid.Proofs.Sparse.Extended
import Regrid.Sparse.RowCheck

/-!
# What a check of row sums certifies

A check (`check_row_sums`) reports the rows among those of its mask whose sum is further than the
tolerance from the expected one, by ascending row (`checkRowSums_eq`, `mem_rowFaults`). In exact
arithmetic with values that are no numbers, the sum of a row is that of its entries
(`getD_rowSums_of_not_gapped`), and no number as soon as one of them is none
(`getD_rowSums_gapped`). Such a sum is not further than the tolerance from anything. So for a row
that is not reported the check certifies the sum just if the entries of the row are numbers
(`checkRowSums_certifies`).
-/

namespace Regrid

open Extended (number)

/-! ## Sums with gaps -/

namespace Extended

theorem undefined_add (x : Extended) : undefined + x = undefined := by cases x <;> rfl

theorem add_undefined (x : Extended) : x + undefined = undefined := by cases x <;> rfl

theorem abs_number (q : Rat) : Scalar.abs (number q) = number |q| := by
  unfold Scalar.abs
  rw [number_zero]
  by_cases h : q < 0
  · rw [if_pos (number_lt.mpr h), abs_of_neg h]
    rfl
  · rw [if_neg (mt number_lt.mp h), abs_of_nonneg (not_lt.mp h)]

/-- What is no number is not further than anything from a number. -/
theorem not_lt_abs_undefined_sub (x : Extended) (q : Rat) :
    ¬ x < Scalar.abs (undefined - number q) := by
  have habs : Scalar.abs (undefined - number q) = undefined := rfl
  rw [habs]
  cases x <;> exact Bool.false_ne_true

/-- A sum with a value that is no number is none. -/
theorem sum_undefined {xs : List Extended} (h : undefined ∈ xs) : Scalar.sum xs = undefined := by
  have hstays : ∀ ys : List Extended, ys.foldl (· + ·) undefined = undefined := fun ys => by
    induction ys with
    | nil => rfl
    | cons y ys ih => rw [List.foldl_cons, undefined_add, ih]
  obtain ⟨before, behind, rfl⟩ := List.append_of_mem h
  unfold Scalar.sum
  rw [List.foldl_append, List.foldl_cons, add_undefined, hstays]

end Extended

theorem Tensor.map_scalar {α β : Type} (f : α → β) (x : α) :
    (Tensor.scalar x).map f = Tensor.scalar (f x) := by
  simp [Tensor.map, Tensor.scalar]

theorem Tensor.map_ofArray {α β : Type} (f : α → β) (xs : Array α) :
    (Tensor.ofArray xs).map f = Tensor.ofArray (xs.map f) := by
  simp [Tensor.map, Tensor.ofArray]

namespace SparseMatrix

/-! ## Reports -/

section Reports

variable {α : Type} [Scalar α] {m : SparseMatrix α}

/-- Whether a mask has a check look at a row; without a mask it looks at all. -/
def looksAt (mask : Option (Tensor Bool)) (row : Nat) : Bool :=
  mask.elim true fun t => t.values.getD row false

/-- The rows that a check reports, where `wanted` is the sum each should have. -/
def rowFaults (m : SparseMatrix α) (wanted : Nat → α) (tolerance : α)
    (mask : Option (Tensor Bool)) : List (Nat × α) :=
  (List.range m.rows).filterMap fun r =>
    if tolerance < Scalar.abs (m.rowSums.values.getD r 0 - wanted r) ∧ looksAt mask r = true then
      some (r, m.rowSums.values.getD r 0)
    else none

/-- The sums that rows should have: one for all of them, or one for each. -/
inductive Expects (n : Nat) : Tensor α → (Nat → α) → Prop
  | all (x : α) : Expects n (Tensor.scalar x) fun _ => x
  | each {xs : Array α} (h : xs.size = n) : Expects n (Tensor.ofArray xs) fun r => xs.getD r 0

theorem Expects.spread {n : Nat} {expected : Tensor α} {wanted : Nat → α}
    (h : Expects n expected wanted) :
    ∃ xs, expected.spread n = .ok xs ∧ ∀ r, r < n → xs.getD r 0 = wanted r := by
  cases h with
  | all x =>
    refine ⟨Array.replicate n x, ?_, fun r hr => ?_⟩
    · unfold Tensor.spread Tensor.scalar
      rw [if_neg (by simp), if_pos (Or.inl rfl)]
      simp
    · rw [Array.getD_eq_getD_getElem?, Array.getElem?_replicate, if_pos hr, Option.getD_some]
  | each h => exact ⟨_, if_pos (congrArg (fun k => [k]) h), fun _ _ => rfl⟩

/-- Expected numbers are expected among extended values. -/
theorem Expects.extended {n : Nat} {expected : Tensor Rat} {wanted : Nat → Rat}
    (h : Expects n expected wanted) :
    Expects n (expected.map number) fun r => number (wanted r) := by
  cases h with
  | all x => exact Tensor.map_scalar number x ▸ .all (number x)
  | @each xs h =>
    have hsize : (xs.map number).size = n := by rw [Array.size_map, h]
    simpa only [Tensor.map_ofArray, Extended.getD_number] using Expects.each hsize

/-- **A check with a fitting mask has a result.** -/
theorem checkRowSums_eq {expected : Tensor α} {wanted : Nat → α}
    (hexpected : Expects m.rows expected wanted) (tolerance : α) {mask : Option (Tensor Bool)}
    (hmask : ∀ t ∈ mask, t.shape = [m.rows]) :
    m.checkRowSums expected tolerance mask = .ok (m.rowFaults wanted tolerance mask) := by
  obtain ⟨xs, hspread, hxs⟩ := hexpected.spread
  have hchosen : ∀ chosen : Array Bool,
      (∀ r, r < m.rows → chosen.getD r false = looksAt mask r) →
      ((List.range m.rows).filterMap fun r =>
        if tolerance < Scalar.abs (m.rowSums.values.getD r 0 - xs.getD r 0) &&
            chosen.getD r false then some (r, m.rowSums.values.getD r 0) else none) =
        m.rowFaults wanted tolerance mask := fun chosen h =>
    List.filterMap_congr fun r hr => by
      have hr := List.mem_range.mp hr
      simp only [h r hr, hxs r hr, Bool.and_eq_true, decide_eq_true_eq]
  unfold checkRowSums
  rw [hspread, bind_ok]
  cases mask with
  | none =>
    refine congrArg Except.ok (hchosen _ fun r hr => ?_)
    rw [Array.getD_eq_getD_getElem?, Array.getElem?_replicate, if_pos hr]
    rfl
  | some t =>
    simp only [if_pos (hmask t rfl)]
    exact congrArg Except.ok (hchosen t.values fun _ _ => rfl)

/-- A check with a mask of another shape has no result. -/
theorem shape_of_checkRowSums {expected : Tensor α} {tolerance : α} {mask : Option (Tensor Bool)}
    {bad : List (Nat × α)} (h : m.checkRowSums expected tolerance mask = .ok bad) :
    ∀ t ∈ mask, t.shape = [m.rows] := by
  rintro t rfl
  unfold checkRowSums at h
  obtain ⟨wanted, -, h⟩ := bind_eq_ok.mp h
  by_contra hshape
  simp only [if_neg hshape] at h
  exact error_ne_ok h

variable {wanted : Nat → α} {tolerance : α} {mask : Option (Tensor Bool)}

theorem mem_rowFaults {r : Nat} {s : α} : (r, s) ∈ m.rowFaults wanted tolerance mask ↔
    r < m.rows ∧ looksAt mask r = true ∧ s = m.rowSums.values.getD r 0 ∧
      tolerance < Scalar.abs (m.rowSums.values.getD r 0 - wanted r) := by
  unfold rowFaults
  simp only [List.mem_filterMap, List.mem_range, Option.ite_none_right_eq_some, Option.some.injEq,
    Prod.mk.injEq]
  constructor
  · rintro ⟨r, hr, ⟨hfar, hlooks⟩, rfl, rfl⟩
    exact ⟨hr, hlooks, rfl, hfar⟩
  · rintro ⟨hr, hlooks, rfl, hfar⟩
    exact ⟨r, hr, ⟨hfar, hlooks⟩, rfl, rfl⟩

/-- Each row is reported once, by ascending row. -/
theorem rowFaults_ascending :
    ((m.rowFaults wanted tolerance mask).map Prod.fst).Pairwise (· < ·) := by
  unfold rowFaults
  rw [List.map_filterMap, List.pairwise_filterMap]
  refine List.pairwise_lt_range.imp fun {r r'} hlt i hi j hj => ?_
  simp only [Option.map_eq_some_iff, Option.ite_none_right_eq_some, Option.some.injEq] at hi hj
  obtain ⟨_, ⟨-, rfl⟩, rfl⟩ := hi
  obtain ⟨_, ⟨-, rfl⟩, rfl⟩ := hj
  exact hlt

/-- There is a warning just if there is something to warn about. -/
theorem rowSumWarning?_eq_none_iff {name : String} {bad : List (Nat × Float)} :
    rowSumWarning? name bad = none ↔ bad = [] := by
  unfold rowSumWarning?
  cases bad <;> simp

end Reports

/-! ## Rows with gaps -/

section Gaps

variable {m : SparseMatrix Extended} {r : Nat}

/-- A row with an entry that is no number. -/
def Gapped (m : SparseMatrix Extended) (r : Nat) : Prop :=
  ∃ e ∈ m.entries, e.row = r ∧ e.value = .undefined

/-- The exact sum of the numbers of a row. -/
def rowTotal (m : SparseMatrix Extended) (r : Nat) : Rat :=
  Scalar.sum ((m.entries.filter fun e => e.row = r).map fun e => e.value.toRat)

theorem getD_rowSums_eq_sum (hr : r < m.rows) : m.rowSums.values.getD r 0 =
    Scalar.sum ((m.entries.filter fun e => e.row = r).map Entry.value) := by
  unfold rowSums totals
  rw [getD_bucketSums hr, List.filter_map, List.map_map]
  rfl

/-- The sum of a row with a gap is no number. -/
theorem getD_rowSums_gapped (hr : r < m.rows) (hgap : m.Gapped r) :
    m.rowSums.values.getD r 0 = .undefined := by
  obtain ⟨e, he, hrow, hvalue⟩ := hgap
  rw [getD_rowSums_eq_sum hr]
  refine Extended.sum_undefined (List.mem_map.mpr ⟨e, ?_, hvalue⟩)
  exact List.mem_filter.mpr ⟨he, decide_eq_true hrow⟩

/-- The sum of a row without a gap is that of its numbers. -/
theorem getD_rowSums_of_not_gapped
    (hm : ∀ e ∈ m.entries, ∀ negative, e.value ≠ .infinite negative) (hr : r < m.rows)
    (hgap : ¬m.Gapped r) : m.rowSums.values.getD r 0 = number (m.rowTotal r) := by
  rw [getD_rowSums_eq_sum hr, rowTotal, ← Extended.sum_number, List.map_map]
  refine congrArg Scalar.sum (List.map_congr_left fun e he => ?_)
  obtain ⟨he, hrow⟩ := List.mem_filter.mp he
  cases hvalue : e.value with
  | number q => simp only [Function.comp, hvalue, Extended.toRat]
  | infinite negative => exact absurd hvalue (hm e he negative)
  | undefined => exact absurd ⟨e, he, of_decide_eq_true hrow, hvalue⟩ hgap

end Gaps

/-- **What a check certifies.** For a matrix of numbers and gaps a check reports, by ascending row,
just the rows of the mask that have no gap and whose sum is further than the tolerance from the
wanted one, each with its sum. There is a warning just if a row is reported. So a row of the mask
that is not reported has a sum within the tolerance, and one that has such a sum is not reported,
just if it has no gap: the sum of a row with a gap is no number, and the row is never reported. -/
theorem checkRowSums_certifies {m : SparseMatrix Extended}
    (hm : ∀ e ∈ m.entries, ∀ negative, e.value ≠ .infinite negative) {expected : Tensor Rat}
    {wanted : Nat → Rat} (hexpected : Expects m.rows expected wanted) (tolerance : Rat)
    {mask : Option (Tensor Bool)} (hmask : ∀ t ∈ mask, t.shape = [m.rows]) (name : String) :
    ∃ bad, m.checkRowSums (expected.map number) (number tolerance) mask = .ok bad ∧
      (bad.map Prod.fst).Pairwise (· < ·) ∧
      (∀ r s, (r, s) ∈ bad ↔ r < m.rows ∧ looksAt mask r = true ∧ ¬m.Gapped r ∧
        s = number (m.rowTotal r) ∧ tolerance < |m.rowTotal r - wanted r|) ∧
      (∀ r, r < m.rows → looksAt mask r = true →
        ((r ∉ bad.map Prod.fst ↔
          ∃ q, m.rowSums.values.getD r 0 = number q ∧ |q - wanted r| ≤ tolerance) ↔
          ¬m.Gapped r)) ∧
      (rowSumWarning? name (bad.map (Prod.map id Scalar.toFloat)) = none ↔ bad = []) := by
  have hreported : ∀ r s,
      (r, s) ∈ m.rowFaults (fun r => number (wanted r)) (number tolerance) mask ↔
      r < m.rows ∧ looksAt mask r = true ∧ ¬m.Gapped r ∧ s = number (m.rowTotal r) ∧
        tolerance < |m.rowTotal r - wanted r| := by
    intro r s
    rw [mem_rowFaults]
    refine and_congr_right fun hr => and_congr_right fun _ => ?_
    by_cases hgap : m.Gapped r
    -- The sum is no number, and no comparison with it holds.
    · rw [getD_rowSums_gapped hr hgap]
      exact iff_of_false (fun h => Extended.not_lt_abs_undefined_sub _ _ h.2) fun h => h.1 hgap
    · rw [getD_rowSums_of_not_gapped hm hr hgap, Extended.number_sub, Extended.abs_number,
        Extended.number_lt]
      exact (and_iff_right hgap).symm
  refine ⟨_, checkRowSums_eq hexpected.extended _ hmask, rowFaults_ascending, hreported,
    fun r hr hlooks => ?_, by rw [rowSumWarning?_eq_none_iff, List.map_eq_nil_iff]⟩
  have hlisted :
      r ∈ (m.rowFaults (fun r => number (wanted r)) (number tolerance) mask).map Prod.fst ↔
      ¬m.Gapped r ∧ tolerance < |m.rowTotal r - wanted r| := by
    rw [List.mem_map]
    constructor
    · rintro ⟨⟨_, s⟩, hmem, rfl⟩
      obtain ⟨-, -, hgap, -, hfar⟩ := (hreported _ s).mp hmem
      exact ⟨hgap, hfar⟩
    · exact fun h => ⟨(r, _), (hreported r _).mpr ⟨hr, hlooks, h.1, rfl, h.2⟩, rfl⟩
  rw [hlisted]
  by_cases hgap : m.Gapped r
  · rw [getD_rowSums_gapped hr hgap]
    refine iff_of_false (fun h => ?_) fun h => h hgap
    obtain ⟨q, hq, -⟩ := h.mp fun h => h.1 hgap
    cases hq
  · rw [getD_rowSums_of_not_gapped hm hr hgap]
    simp [hgap]

/-- A matrix with a gap in its first row, two entries at one place of the second and none in the
third. -/
def gapFirst : SparseMatrix Extended :=
  ⟨3, 1, [⟨0, 0, .undefined⟩, ⟨1, 0, number 1⟩, ⟨1, 0, number 1⟩]⟩

/-- Of three rows that all have a sum other than one, the row with the gap is not reported. -/
theorem checkRowSums_certifies_gapFirst :
    ∃ bad, gapFirst.checkRowSums (Tensor.scalar (number 1)) (number 0) none = .ok bad ∧
      bad ≠ [] ∧ (1, number 2) ∈ bad ∧ (2, number 0) ∈ bad ∧ 0 ∉ bad.map Prod.fst := by
  have hvalues : ∀ e ∈ gapFirst.entries, ∀ negative, e.value ≠ .infinite negative := by decide
  have hmask : ∀ t ∈ (none : Option (Tensor Bool)), t.shape = [gapFirst.rows] := by simp
  obtain ⟨bad, hbad, -, hreported, -⟩ :=
    checkRowSums_certifies hvalues (Expects.all (1 : Rat)) 0 hmask "matrix"
  rw [Tensor.map_scalar] at hbad
  have hfull : ∀ r, r ≠ 0 → ¬gapFirst.Gapped r := by
    rintro r hr ⟨e, he, rfl, hvalue⟩
    revert e
    decide
  have hsecond : (1, number 2) ∈ bad :=
    (hreported 1 _).mpr ⟨by decide, rfl, hfull 1 (by decide), by decide +kernel, by decide +kernel⟩
  have hthird : (2, number 0) ∈ bad :=
    (hreported 2 _).mpr ⟨by decide, rfl, hfull 2 (by decide), by decide +kernel, by decide +kernel⟩
  refine ⟨bad, hbad, List.ne_nil_of_mem hsecond, hsecond, hthird, fun hmem => ?_⟩
  obtain ⟨⟨_, s⟩, hmem, rfl⟩ := List.mem_map.mp hmem
  exact ((hreported _ s).mp hmem).2.2.1 ⟨⟨0, 0, .undefined⟩, by decide, rfl, rfl⟩

/-- **A row whose sum is no number passes.** The check reports nothing, although the first row does
not have the sum one. -/
theorem checkRowSums_passes_gap :
    let m : SparseMatrix Extended := ⟨2, 1, [⟨0, 0, .undefined⟩, ⟨1, 0, number 1⟩]⟩
    m.checkRowSums (Tensor.scalar (number 1)) (number 0) none = .ok [] ∧
      ¬∃ q, m.rowSums.values.getD 0 0 = number q ∧ |q - 1| ≤ 0 := by
  intro m
  refine ⟨eq_ok_of_toOption (by decide +kernel), ?_⟩
  rintro ⟨q, hq, -⟩
  have hgap : m.rowSums.values.getD 0 0 = .undefined := by decide +kernel
  rw [hgap] at hq
  cases hq

end SparseMatrix

end Regrid

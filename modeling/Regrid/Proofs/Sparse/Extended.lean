import Regrid.Field.Weights
import Regrid.Proofs.Extended
import Regrid.Proofs.Sparse.Product

/-!
# Sparse matrices of numbers

A matrix of rationals is one of extended values too. Merging its entries and summing its rows only
adds, and its products with vectors of numbers only multiply and add, so they are what they are
among the rationals (`sumDuplicates_extended`, `getD_rowSums_extended`, `getD_times_extended`).
There, merging changes no element (`dense_sumDuplicates`).
-/

namespace Regrid

open Extended (number)

/-- The entry among extended values. -/
def Entry.extended (e : Entry Rat) : Entry Extended := ⟨e.row, e.col, number e.value⟩

namespace SparseMatrix

/-- The matrix among extended values. -/
def extended (m : SparseMatrix Rat) : SparseMatrix Extended :=
  ⟨m.rows, m.cols, m.entries.map Entry.extended⟩

variable {m : SparseMatrix Rat}

/-! ## Merging -/

section Merging

variable {κ : Type} [DecidableEq κ]

theorem sumRunsFrom_number (rest : List (κ × Rat)) (key : κ) (total : Rat) :
    sumRunsFrom key (number total) (rest.map (Prod.map id number)) =
      (sumRunsFrom key total rest).map (Prod.map id number) := by
  induction rest generalizing key total with
  | nil => rfl
  | cons t rest ih =>
    obtain ⟨k, v⟩ := t
    rw [List.map_cons, Prod.map_apply, id, sumRunsFrom, sumRunsFrom]
    by_cases hk : k = key
    · rw [if_pos hk, if_pos hk, Extended.number_add, ih]
    · rw [if_neg hk, if_neg hk, List.map_cons, ih]
      rfl

theorem sumRuns_number : ∀ l : List (κ × Rat),
    sumRuns (l.map (Prod.map id number)) = (sumRuns l).map (Prod.map id number)
  | [] => rfl
  | (k, v) :: rest => sumRunsFrom_number rest k v

end Merging

theorem mergedEntries_extended (es : List (Entry Rat)) :
    mergedEntries (es.map Entry.extended) = (mergedEntries es).map Entry.extended := by
  have hkeyed : (es.map Entry.extended).map (fun e => ((e.row, e.col), e.value)) =
      (es.map fun e => ((e.row, e.col), e.value)).map (Prod.map id number) := by
    rw [List.map_map, List.map_map]
    rfl
  have hsorted : ∀ keyed : List ((Nat × Nat) × Rat),
      (keyed.map (Prod.map id number)).mergeSort coordinateLE =
        (keyed.mergeSort coordinateLE).map (Prod.map id number) := fun keyed =>
    (List.map_mergeSort (f := Prod.map id number) fun _ _ _ _ => rfl).symm
  unfold mergedEntries
  simp only [hkeyed, hsorted, sumRuns_number]
  rw [List.map_map, List.map_map]
  rfl

/-- **Merging** among extended values. -/
theorem sumDuplicates_extended : m.extended.sumDuplicates = m.sumDuplicates.extended := by
  unfold sumDuplicates extended
  simp only [mergedEntries_extended]

/-- Merging changes no element. -/
theorem dense_sumDuplicates (m : SparseMatrix Rat) (row col : Nat) :
    m.sumDuplicates.dense row col = m.dense row col := by
  rw [dense_eq_mul, dense_eq_mul]
  exact sum_mergedEntries (fun i j => if i = row ∧ j = col then 1 else 0) m.entries

theorem mulVec_sumDuplicates (m : SparseMatrix Rat) (v : Nat → Rat) (row : Nat) :
    m.sumDuplicates.mulVec v row = m.mulVec v row :=
  Finset.sum_congr rfl fun c _ => by rw [dense_sumDuplicates]

/-! ## Sums by row -/

/-- Sums by row of numbers are numbers. -/
theorem getD_bucketSums_number {n i : Nat} (hi : i < n) (terms : List (Nat × Rat)) :
    (bucketSums n (terms.map fun t => (t.1, number t.2))).getD i 0 =
      number ((bucketSums n terms).getD i 0) := by
  have hterms : ((terms.map fun t => (t.1, number t.2)).filter fun t => t.1 = i).map Prod.snd =
      ((terms.filter fun t => t.1 = i).map Prod.snd).map number := by
    rw [List.filter_map, List.map_map, List.map_map]
    rfl
  rw [getD_bucketSums hi, getD_bucketSums hi, hterms, Extended.sum_number]

theorem getD_rowSums_extended {row : Nat} (hr : row < m.rows) :
    m.extended.rowSums.values.getD row 0 = number (m.rowSums.values.getD row 0) := by
  unfold rowSums totals
  rw [← getD_bucketSums_number hr, List.map_map]
  unfold extended
  rw [List.map_map]
  rfl

/-! ## Products with vectors -/

theorem size_times {α : Type} [Scalar α] (m : SparseMatrix α) (x : Array α) :
    (m.times x).size = m.rows :=
  size_bucketSums _ _

/-- A product with a vector is that of the dense matrix. -/
theorem getD_times (h : m.InBounds) (x : Array Rat) {row : Nat} (hr : row < m.rows) :
    (m.times x).getD row 0 = m.mulVec (fun c => x.getD c 0) row := by
  unfold times totals
  rw [getD_bucketSums_exact hr, List.map_map]
  exact sum_row h row fun c => x.getD c 0

/-- **A product with a vector of numbers** among extended values. -/
theorem getD_times_extended (h : m.InBounds) (x : Array Rat) {row : Nat} (hr : row < m.rows) :
    (m.extended.times (x.map number)).getD row 0 =
      number (m.mulVec (fun c => x.getD c 0) row) := by
  have hterms : m.extended.entries.map (fun e => (e.row, e.value * (x.map number).getD e.col 0)) =
      (m.entries.map fun e => (e.row, e.value * x.getD e.col 0)).map
        fun t => (t.1, number t.2) := by
    unfold extended
    rw [List.map_map, List.map_map]
    refine List.map_congr_left fun e _ => ?_
    simp only [Function.comp, Entry.extended, Extended.getD_number, Extended.number_mul]
  rw [← getD_times h x hr]
  unfold times totals
  rw [hterms]
  exact getD_bucketSums_number hr _

end SparseMatrix

end Regrid

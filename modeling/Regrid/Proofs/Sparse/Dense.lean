import Mathlib.Algebra.Order.BigOperators.Group.List
import Regrid.Proofs.Exact
import Regrid.Sparse.Basic

/-!
# The dense matrix of a list of entries

Over exact scalars a list of entries stands for its dense matrix, and the operations are those of
matrices: row sums (`getD_rowSums`) and the product with a vector (`apply_eq`). `mulVec` is the
product of the dense matrix with a vector.
-/

namespace Regrid

namespace SparseMatrix

/-- Every entry lies inside the shape. -/
def InBounds {α : Type} (m : SparseMatrix α) : Prop :=
  ∀ e ∈ m.entries, e.row < m.rows ∧ e.col < m.cols

instance {α : Type} (m : SparseMatrix α) : Decidable m.InBounds :=
  inferInstanceAs (Decidable (∀ e ∈ m.entries, e.row < m.rows ∧ e.col < m.cols))

/-- The product of the dense matrix and a vector. -/
def mulVec (m : SparseMatrix Rat) (v : Nat → Rat) (row : Nat) : Rat :=
  ∑ c ∈ Finset.range m.cols, m.dense row c * v c

theorem InBounds.transpose {α : Type} {m : SparseMatrix α} (h : m.InBounds) :
    m.transpose.InBounds := by
  intro e he
  obtain ⟨e', he', rfl⟩ := List.mem_map.mp he
  exact ⟨(h e' he').2, (h e' he').1⟩

/-! ## Positions -/

/-- The indices that are accepted are those of the size. -/
theorem checkBounds_eq_ok {is : List Int} {size : Nat} (place : String) :
    checkBounds is size place = .ok () ↔ ∀ i ∈ is, 0 ≤ i ∧ i < size := by
  unfold checkBounds
  split
  · rename_i i hi
    refine iff_of_false nofun fun h => ?_
    have := h i (List.mem_of_find?_eq_some hi)
    have := List.find?_some hi
    simp only [Bool.or_eq_true, decide_eq_true_eq] at this
    omega
  · rename_i hnone
    refine iff_of_true rfl fun i hi => ?_
    have := List.find?_eq_none.mp hnone i hi
    simp only [Bool.or_eq_true, decide_eq_true_eq] at this
    omega

/-! ## Elements -/

theorem dense_eq (m : SparseMatrix Rat) (row col : Nat) :
    m.dense row col =
      (m.entries.map fun e => if e.row = row ∧ e.col = col then e.value else 0).sum := by
  unfold dense
  rw [Scalar.sum_eq, sum_map_filter]
  simp only [decide_eq_true_eq]

/-- Without negative entries there are no negative elements. -/
theorem dense_nonneg_of_entries {m : SparseMatrix Rat} (h : ∀ e ∈ m.entries, 0 ≤ e.value)
    (row col : Nat) : 0 ≤ m.dense row col := by
  rw [dense_eq]
  refine List.sum_nonneg fun v hv => ?_
  obtain ⟨e, he, rfl⟩ := List.mem_map.mp hv
  split_ifs
  · exact h e he
  · exact le_rfl

/-- The same as a weighted sum over all entries. -/
theorem dense_eq_mul (m : SparseMatrix Rat) (row col : Nat) :
    m.dense row col =
      (m.entries.map fun e => e.value * if e.row = row ∧ e.col = col then 1 else 0).sum := by
  rw [dense_eq]
  simp only [mul_ite, mul_one, mul_zero]

/-- A sum over the entries of a row is a sum over its elements. -/
theorem sum_row {m : SparseMatrix Rat} (h : m.InBounds) (row : Nat) (f : Nat → Rat) :
    (m.entries.map fun e => if e.row = row then e.value * f e.col else 0).sum =
      ∑ c ∈ Finset.range m.cols, m.dense row c * f c := by
  rw [sum_map_ite m.entries (Finset.range m.cols) Entry.col _
    fun e he => Finset.mem_range.mpr (h e he).2]
  refine Finset.sum_congr rfl fun c _ => ?_
  rw [dense_eq, ← List.sum_map_mul_right]
  congr 1
  refine List.map_congr_left fun e _ => ?_
  by_cases hr : e.row = row <;> by_cases hc : e.col = c <;> simp [hr, hc]

/-- The entries of a row sum to its elements. -/
theorem sum_entries_row {m : SparseMatrix Rat} (h : m.InBounds) (row : Nat) :
    ((m.entries.filter fun e => e.row = row).map Entry.value).sum =
      ∑ c ∈ Finset.range m.cols, m.dense row c := by
  have hsum := m.sum_row h row fun _ => 1
  simp only [mul_one] at hsum
  rw [sum_map_filter, ← hsum]
  simp only [decide_eq_true_eq]

/-! ## Sums by row -/

theorem size_bucketSums {α : Type} [Scalar α] (n : Nat) (terms : List (Nat × α)) :
    (bucketSums n terms).size = n := by
  have hfold : ∀ (terms : List (Nat × α)) (acc : Array α),
      (terms.foldl (fun acc t => acc.modify t.1 (· + t.2)) acc).size = acc.size := by
    intro terms
    induction terms with
    | nil => exact fun _ => rfl
    | cons t terms ih => exact fun acc => (ih _).trans (Array.size_modify ..)
  exact (hfold terms _).trans Array.size_replicate

/-- An element of the sums by row adds up the terms of its row, in their order. -/
theorem getD_bucketSums {α : Type} [Scalar α] {n i : Nat} (hi : i < n) (terms : List (Nat × α)) :
    (bucketSums n terms).getD i 0 = Scalar.sum ((terms.filter fun t => t.1 = i).map Prod.snd) := by
  have hfold : ∀ (terms : List (Nat × α)) (acc : Array α), i < acc.size →
      (terms.foldl (fun acc t => acc.modify t.1 (· + t.2)) acc).getD i 0 =
        ((terms.filter fun t => t.1 = i).map Prod.snd).foldl (· + ·) (acc.getD i 0) := by
    intro terms
    induction terms with
    | nil => exact fun acc _ => rfl
    | cons t terms ih =>
      intro acc hacc
      rw [List.foldl_cons, ih _ (by rw [Array.size_modify]; exact hacc), List.filter_cons,
        Array.getD_eq_getD_getElem?, Array.getElem?_modify, Array.getElem?_eq_getElem hacc,
        Array.getD_eq_getD_getElem?, Array.getElem?_eq_getElem hacc]
      by_cases ht : t.1 = i
      · simp [ht]
      · simp [ht]
  have h0 : (Array.replicate n (0 : α)).getD i 0 = 0 := by
    rw [Array.getD_eq_getD_getElem?, Array.getElem?_replicate, if_pos hi, Option.getD_some]
  refine (hfold terms _ (by rw [Array.size_replicate]; exact hi)).trans ?_
  rw [h0]
  rfl

/-- Over exact scalars it is the sum of these terms. -/
theorem getD_bucketSums_exact {n i : Nat} (hi : i < n) (terms : List (Nat × Rat)) :
    (bucketSums n terms).getD i 0 = (terms.map fun t => if t.1 = i then t.2 else 0).sum := by
  rw [getD_bucketSums hi, Scalar.sum_eq, sum_map_filter]
  simp only [decide_eq_true_eq]

theorem getD_rowSums {m : SparseMatrix Rat} (h : m.InBounds) {row : Nat} (hr : row < m.rows) :
    m.rowSums.values.getD row 0 = ∑ c ∈ Finset.range m.cols, m.dense row c := by
  rw [rowSums, totals, getD_bucketSums_exact hr, List.map_map, ← sum_entries_row h, sum_map_filter]
  simp only [decide_eq_true_eq]
  rfl

/-- A sum over the rows of what each row has. -/
theorem sum_rows_mul {m : SparseMatrix Rat} (h : m.InBounds) (f : Entry Rat → Rat)
    (g : Nat → Rat) :
    ∑ row ∈ Finset.range m.rows,
        (m.entries.map fun e => if e.row = row then f e else 0).sum * g row =
      (m.entries.map fun e => f e * g e.row).sum := by
  rw [sum_map_ite m.entries (Finset.range m.rows) Entry.row _
    fun e he => Finset.mem_range.mpr (h e he).1]
  refine Finset.sum_congr rfl fun row _ => ?_
  rw [← List.sum_map_mul_right]
  congr 1
  refine List.map_congr_left fun e _ => ?_
  by_cases hrow : e.row = row
  · rw [if_pos hrow, if_pos hrow, hrow]
  · rw [if_neg hrow, if_neg hrow, zero_mul]

/-- Without skipping, every entry counts. -/
theorem apply_eq_totals {α : Type} [Scalar α] {m : SparseMatrix α} {x : Tensor α}
    (hx : x.shape = [m.cols]) : m.apply x false =
      .ok (m.totals (m.entries.map fun e => (e.row, e.value * x.values.getD e.col 0))) := by
  rw [apply, if_pos hx]
  simp only [Bool.false_eq_true, if_false, List.map_map]
  rfl

/-- Among exact scalars every value is a number, so there is nothing to skip. -/
theorem apply_skipNaN (m : SparseMatrix Rat) (x : Tensor Rat) (skipNaN : Bool) :
    m.apply x skipNaN = m.apply x false := by
  cases skipNaN with
  | false => rfl
  | true =>
    have hnan : ∀ q : Rat, (!Scalar.isNaN q) = true := fun _ => rfl
    unfold apply
    simp only [hnan, List.filter_true, ite_self]

/-- What a product with a vector holds, by the entries of the matrix. -/
theorem apply_entries {m : SparseMatrix Rat} {x : Tensor Rat} (hx : x.shape = [m.cols]) :
    ∃ y, m.apply x false = .ok y ∧ y.values.size = m.rows ∧
      ∀ row, row < m.rows → y.values.getD row 0 = (m.entries.map fun e =>
        if e.row = row then e.value * x.values.getD e.col 0 else 0).sum := by
  refine ⟨_, apply_eq_totals hx, size_bucketSums _ _, fun row hr => ?_⟩
  rw [totals, getD_bucketSums_exact hr, List.map_map]
  rfl

/-- **Applying a matrix** is multiplying the dense one with the vector. -/
theorem apply_eq {m : SparseMatrix Rat} (h : m.InBounds) {x : Tensor Rat}
    (hx : x.shape = [m.cols]) : ∃ y, m.apply x false = .ok y ∧ y.values.size = m.rows ∧
      ∀ row, row < m.rows → y.values.getD row 0 = m.mulVec (fun c => x.values.getD c 0) row := by
  obtain ⟨y, hy, hsize, hvalues⟩ := apply_entries hx
  refine ⟨y, hy, hsize, fun row hr => ?_⟩
  exact (hvalues row hr).trans (sum_row h row fun c => x.values.getD c 0)

end SparseMatrix

end Regrid

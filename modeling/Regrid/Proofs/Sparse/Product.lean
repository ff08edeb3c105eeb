import Regrid.Proofs.Sparse.Merge

/-!
# Products of sparse matrices

Merging entries of one coordinate leaves every weighted sum over the entries as it is
(`sum_mergedEntries`). So a weighted sum over the entries of a product is one over the pairs of
entries that meet (`sum_multiply`), however often a coordinate is stored and whatever was dropped.
The product stands for the product of the dense matrices (`dense_multiply`).
-/

namespace Regrid

/-! ## Runs -/

section Runs

variable {κ : Type} [DecidableEq κ]

theorem sum_sumRunsFrom (g : κ → Rat) : ∀ (rest : List (κ × Rat)) (key : κ) (total : Rat),
    ((sumRunsFrom key total rest).map fun t => t.2 * g t.1).sum =
      total * g key + (rest.map fun t => t.2 * g t.1).sum
  | [], key, total => by simp [sumRunsFrom]
  | (k, v) :: rest, key, total => by
    unfold sumRunsFrom
    split_ifs with hk
    · rw [sum_sumRunsFrom g rest, hk, List.map_cons, List.sum_cons]
      ring
    · rw [List.map_cons, List.sum_cons, sum_sumRunsFrom g rest, List.map_cons, List.sum_cons]

/-- **Summing runs** leaves every weighted sum as it is. -/
theorem sum_sumRuns (g : κ → Rat) : ∀ l : List (κ × Rat),
    ((sumRuns l).map fun t => t.2 * g t.1).sum = (l.map fun t => t.2 * g t.1).sum
  | [] => rfl
  | (k, v) :: rest => by
    rw [sumRuns, sum_sumRunsFrom, List.map_cons, List.sum_cons]

end Runs

namespace SparseMatrix

/-! ## Merging -/

/-- **Merging entries** leaves every weighted sum as it is. -/
theorem sum_mergedEntries (g : Nat → Nat → Rat) (es : List (Entry Rat)) :
    ((mergedEntries es).map fun e => e.value * g e.row e.col).sum =
      (es.map fun e => e.value * g e.row e.col).sum := by
  have hperm := List.mergeSort_perm (es.map fun e => ((e.row, e.col), e.value)) coordinateLE
  have hmap := hperm.map fun t : (Nat × Nat) × Rat => t.2 * g t.1.1 t.1.2
  rw [mergedEntries, List.map_map]
  refine (sum_sumRuns (fun k : Nat × Nat => g k.1 k.2) _).trans ?_
  rw [hmap.sum_eq, List.map_map]
  rfl

/-- Putting entries in front of the lists of their rows leaves the number of lists as it is. -/
theorem size_foldr_modify {α : Type} (es : List (Entry α)) (n : Nat) :
    (es.foldr (fun e acc => acc.modify e.row ((e.col, e.value) :: ·))
      (Array.replicate n [])).size = n := by
  induction es with
  | nil => exact Array.size_replicate
  | cons e es ih => exact (Array.size_modify ..).trans ih

theorem size_rowLists (m : SparseMatrix Rat) : m.rowLists.size = m.rows :=
  size_foldr_modify _ _

/-- The merged entries of a row. -/
theorem getD_rowLists (m : SparseMatrix Rat) {i : Nat} (hi : i < m.rows) :
    m.rowLists.getD i [] =
      ((mergedEntries m.entries).filter fun e => e.row = i).map fun e => (e.col, e.value) := by
  unfold rowLists
  induction mergedEntries m.entries with
  | nil => simp [hi]
  | cons e es ih =>
    have hlt : i < (es.foldr (fun e acc => acc.modify e.row ((e.col, e.value) :: ·))
        (Array.replicate m.rows [])).size := by
      rw [size_foldr_modify]
      exact hi
    rw [Array.getD_eq_getD_getElem?, Array.getElem?_eq_getElem hlt, Option.getD_some] at ih
    rw [List.foldr_cons, Array.getD_eq_getD_getElem?, Array.getElem?_modify,
      Array.getElem?_eq_getElem hlt, List.filter_cons, ih]
    by_cases hrow : e.row = i
    · simp [hrow]
    · simp [hrow]

/-- What stands in the list of a row is an entry of the row. -/
theorem mem_rowLists {m : SparseMatrix Rat} {i : Nat} {t : Nat × Rat}
    (h : t ∈ m.rowLists.getD i []) : ∃ e ∈ m.entries, e.row = i ∧ e.col = t.1 := by
  have hi : i < m.rows := by
    by_contra hge
    rw [Array.getD_eq_getD_getElem?, Array.getElem?_eq_none (by rw [size_rowLists]; omega),
      Option.getD_none] at h
    exact absurd h List.not_mem_nil
  rw [getD_rowLists m hi, List.mem_map] at h
  obtain ⟨e, he, rfl⟩ := h
  rw [List.mem_filter, decide_eq_true_eq] at he
  obtain ⟨e', he', hrow, hcol⟩ := mem_mergedEntries he.1
  exact ⟨e', he', hrow.trans he.2, hcol⟩

/-- The merged entries of all rows, each with its row. -/
theorem rowLists_zipIdx (m : SparseMatrix Rat) : m.rowLists.toList.zipIdx =
    (List.range m.rows).map fun i => (m.rowLists.getD i [], i) := by
  apply List.ext_getElem
  · simp [size_rowLists]
  · intro i h1 h2
    have hi : i < m.rowLists.size := by simpa using h1
    simp [Array.getD, hi]

/-! ## Products -/

/-- A weighted sum over the entries of a row. -/
theorem sum_rowLists (m : SparseMatrix Rat) {i : Nat} (hi : i < m.rows) (g : Nat → Rat) :
    ((m.rowLists.getD i []).map fun t => t.2 * g t.1).sum =
      (m.entries.map fun e => e.value * if e.row = i then g e.col else 0).sum := by
  rw [getD_rowLists m hi, List.map_map,
    ← sum_mergedEntries (fun row col => if row = i then g col else 0) m.entries]
  refine (sum_map_filter _ _ fun e : Entry Rat => e.value * g e.col).trans ?_
  congr 1
  refine List.map_congr_left fun e _ => ?_
  by_cases hrow : e.row = i
  · simp [hrow]
  · simp [hrow]

/-- A weighted sum over the products that contribute to a row. -/
theorem sum_rowProducts (right : Array (List (Nat × Rat))) (row : List (Nat × Rat))
    (g : Nat → Rat) :
    ((rowProducts right row).map fun t => t.2 * g t.1).sum =
      (row.map fun t => t.2 * ((right.getD t.1 []).map fun u => u.2 * g u.1).sum).sum := by
  rw [rowProducts, sum_map_flatMap]
  congr 1
  refine List.map_congr_left fun t _ => ?_
  rw [List.map_map, ← List.sum_map_mul_left]
  congr 1
  refine List.map_congr_left fun u _ => ?_
  exact mul_assoc t.2 u.2 (g u.1)

/-- A weighted sum over one row of a product, from a row of the left factor. -/
theorem sum_productRow (b : SparseMatrix Rat) {row : List (Nat × Rat)}
    (hrow : ∀ t ∈ row, t.1 < b.rows) (g : Nat → Rat) :
    (((sumRuns ((rowProducts b.rowLists row).mergeSort fun x y => x.1 ≤ y.1)).filter
      fun t => t.2 != 0).map fun t => t.2 * g t.1).sum =
      (row.map fun t => t.2 *
        (b.entries.map fun f => f.value * if f.row = t.1 then g f.col else 0).sum).sum := by
  have hperm := (List.mergeSort_perm (rowProducts b.rowLists row) fun x y => x.1 ≤ y.1).map
    fun t => t.2 * g t.1
  rw [sum_map_filter_of_zero, sum_sumRuns g, hperm.sum_eq, sum_rowProducts]
  · congr 1
    exact List.map_congr_left fun t ht => congrArg (t.2 * ·) (sum_rowLists b (hrow t ht) g)
  · intro t _ h
    rw [bne_eq_false_iff_eq] at h
    rw [h, zero_mul]

/-- **A weighted sum over the entries of a product** is one over the pairs of entries that meet. -/
theorem sum_multiply {a b c : SparseMatrix Rat} (ha : a.InBounds) (h : a.multiply b = .ok c)
    (g : Nat → Nat → Rat) :
    (c.entries.map fun e => e.value * g e.row e.col).sum =
      (a.entries.map fun e => e.value *
        (b.entries.map fun f => f.value * if f.row = e.col then g e.row f.col else 0).sum).sum := by
  unfold multiply at h
  split_ifs at h with hdim
  obtain rfl := Except.ok.inj h
  have hrows : ∀ i, ∀ t ∈ a.rowLists.getD i [], t.1 < b.rows := by
    intro i t ht
    obtain ⟨e, he, -, hcol⟩ := mem_rowLists ht
    rw [← hdim, ← hcol]
    exact (ha e he).2
  calc
    _ = ∑ i ∈ Finset.range a.rows, (((sumRuns ((rowProducts b.rowLists
          (a.rowLists.getD i [])).mergeSort fun x y => x.1 ≤ y.1)).filter
            fun t => t.2 != 0).map fun t => t.2 * g i t.1).sum := by
      simp only
      rw [sum_map_flatMap, rowLists_zipIdx, List.map_map, sum_map_range]
      refine Finset.sum_congr rfl fun i _ => ?_
      simp only [Function.comp, List.map_map]
      rfl
    _ = ∑ i ∈ Finset.range a.rows, (a.entries.map fun e => e.value * if e.row = i then
          (b.entries.map fun f => f.value * if f.row = e.col then g i f.col else 0).sum
          else 0).sum := by
      refine Finset.sum_congr rfl fun i hi => ?_
      rw [sum_productRow b (hrows i), sum_rowLists a (Finset.mem_range.mp hi) fun j =>
        (b.entries.map fun f => f.value * if f.row = j then g i f.col else 0).sum]
    _ = _ := by
      rw [← sum_map_sum]
      congr 1
      refine List.map_congr_left fun e he => ?_
      rw [← Finset.mul_sum, Finset.sum_ite_eq, if_pos (Finset.mem_range.mpr (ha e he).1)]

/-- **An element of a product** is that of the product of the dense matrices. -/
theorem dense_multiply {a b c : SparseMatrix Rat} (ha : a.InBounds) (h : a.multiply b = .ok c)
    (row col : Nat) :
    c.dense row col = ∑ j ∈ Finset.range a.cols, a.dense row j * b.dense j col := by
  rw [dense_eq_mul, sum_multiply ha h fun i j => if i = row ∧ j = col then 1 else 0, ← sum_row ha]
  congr 1
  refine List.map_congr_left fun e _ => ?_
  by_cases hrow : e.row = row
  · rw [if_pos hrow, dense_eq_mul]
    congr 3
    funext f
    by_cases hf : f.row = e.col
    · simp [hf, hrow]
    · simp [hf]
  · simp [hrow]

/-- The entries of a product lie inside its shape. -/
theorem multiply_inBounds {a b c : SparseMatrix Rat} (hb : b.InBounds)
    (h : a.multiply b = .ok c) : c.rows = a.rows ∧ c.cols = b.cols ∧ c.InBounds := by
  unfold multiply at h
  split_ifs at h with hdim
  obtain rfl := Except.ok.inj h
  refine ⟨rfl, rfl, fun e he => ?_⟩
  simp only [rowLists_zipIdx, List.mem_flatMap, List.mem_map, List.mem_range] at he
  obtain ⟨-, ⟨i, hi, rfl⟩, t, ht, rfl⟩ := he
  refine ⟨hi, ?_⟩
  have hkey := mem_sumRuns (List.mem_filter.mp ht).1
  obtain ⟨u, hu, hut⟩ := List.mem_map.mp hkey
  rw [List.mem_mergeSort, rowProducts, List.mem_flatMap] at hu
  obtain ⟨j, hj, hu⟩ := hu
  obtain ⟨w, hw, rfl⟩ := List.mem_map.mp hu
  obtain ⟨f, hf, -, hcol⟩ := mem_rowLists hw
  have hcols := (hb f hf).2
  rw [hcol] at hcols
  exact hut ▸ hcols

end SparseMatrix

end Regrid

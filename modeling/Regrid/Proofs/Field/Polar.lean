import Regrid.Proofs.Exact
import Regrid.Field.Polar
import Regrid.Proofs.Field.Weights
import Regrid.Proofs.LatLon.Partition
import Regrid.Proofs.Range

/-!
# Polar means of a field without gaps

The mean of numbers is their sum over how many there are (`presentMean_numbers`), so in a field
without gaps the cells of the first and of the last row get the mean of their row, and the others
keep their value (`polarMeans_numbers`).
-/

namespace Regrid

open Extended (number)

theorem presentMean_numbers {qs : List Rat} (h : qs ≠ []) :
    presentMean (⟨id, id⟩ : Rounding Extended) (qs.map number) = number (qs.sum / qs.length) := by
  have hpresent : ((qs.map number).filter fun x => !Scalar.isNaN x) = qs.map number := by
    refine List.filter_eq_self.mpr fun x hx => ?_
    obtain ⟨q, -, rfl⟩ := List.mem_map.mp hx
    rfl
  have hsum : (qs.map number).foldl (· + ·) 0 = number qs.sum :=
    (Extended.sum_number qs).trans (congrArg number (Scalar.sum_eq qs))
  have hcount : (Scalar.ofNat (qs.map number).length : Extended) = number qs.length := by
    rw [List.length_map, Extended.number_ofNat]
  have hlength : (qs.length : Rat) ≠ 0 :=
    Nat.cast_ne_zero.mpr fun hzero => h (List.length_eq_zero_iff.mp hzero)
  unfold presentMean
  rw [hpresent]
  refine (if_neg (by simpa using h)).trans ?_
  exact (congrArg₂ (· / ·) hsum hcount).trans (Extended.number_div hlength)

/-- The value of a cell of a field of numbers with polar means. -/
def polarValue (rows columns : Nat) (f : Nat → Rat) (b : Nat) : Rat :=
  if b / columns = 0 ∨ b / columns = rows - 1 then
    (∑ i ∈ Finset.range columns, f (b / columns * columns + i)) / columns
  else f b

variable {rows columns : Nat} (f : Nat → Rat)

theorem polarValue_cell (j : Nat) {i : Nat} (hi : i < columns) :
    polarValue rows columns f (j * columns + i) = if j = 0 ∨ j = rows - 1 then
      (∑ i ∈ Finset.range columns, f (j * columns + i)) / columns else f (j * columns + i) := by
  rw [polarValue, Lattice.div_cell hi]

variable (hrows : 0 < rows) (hcolumns : 0 < columns)
include hrows hcolumns

theorem polarRows_numbers : polarRows (⟨id, id⟩ : Rounding Extended) rows columns
    ((List.range (rows * columns)).map fun b => number (f b)) =
      (List.range (rows * columns)).map fun b => number (polarValue rows columns f b) := by
  rw [map_range_table columns rows fun b => number (polarValue rows columns f b)]
  refine List.flatMap_congr fun j hj => ?_
  have hj := List.mem_range.mp hj
  have hrow : (((List.range (rows * columns)).map fun b => number (f b)).drop (j * columns)).take
      columns = ((List.range columns).map fun i => f (j * columns + i)).map number := by
    rw [take_drop_table hj, List.map_map]
    rfl
  have hne : ((List.range columns).map fun i => f (j * columns + i)) ≠ [] := by
    simpa using hcolumns.ne'
  have hlast : j + 1 = rows ↔ j = rows - 1 := by omega
  simp only [hrow, presentMean_numbers hne, hlast]
  split_ifs with hpolar
  · have hmean : ∀ i ∈ List.range columns, number (polarValue rows columns f (j * columns + i)) =
        number ((∑ i ∈ Finset.range columns, f (j * columns + i)) / columns) := fun i hi => by
      rw [polarValue_cell f j (List.mem_range.mp hi), if_pos hpolar]
    rw [List.map_congr_left hmean, List.map_const', sum_map_range, List.length_map,
      List.length_range]
  · rw [List.map_map]
    refine List.map_congr_left fun i hi => ?_
    rw [polarValue_cell f j (List.mem_range.mp hi), if_neg hpolar]
    rfl

/-- **A field of numbers with polar means.** -/
theorem polarMeans_numbers :
    polarMeans (⟨id, id⟩ : Rounding Extended)
        ⟨[rows, columns], tabulated (rows * columns) fun b => number (f b)⟩ =
      .ok ⟨[rows, columns],
        tabulated (rows * columns) fun b => number (polarValue rows columns f b)⟩ := by
  have hsize : 0 < rows * columns := Nat.mul_pos hrows hcolumns
  have hcount : (tabulated (rows * columns) fun b => number (f b)).size / (rows * columns) = 1 := by
    rw [size_tabulated, Nat.div_self hsize]
  have hfield : ((tabulated (rows * columns) fun b => number (f b)).extract (0 * (rows * columns))
      ((0 + 1) * (rows * columns))).toList =
        (List.range (rows * columns)).map fun b => number (f b) := by
    rw [Nat.zero_mul, Nat.zero_add, Nat.one_mul, tabulated]
    simp
  unfold polarMeans
  simp only [List.reverse_cons, List.reverse_nil, List.nil_append, List.singleton_append,
    hrows.ne', hsize.ne', if_false, hcount, List.range_one, List.flatMap_cons, List.flatMap_nil,
    List.append_nil, hfield, polarRows_numbers f hrows hcolumns]
  rfl

end Regrid

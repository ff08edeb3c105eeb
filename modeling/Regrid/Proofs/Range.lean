import Mathlib.Tactic.SplitIfs
import Regrid.Range

/-!
# Parts of a sequence

A place inside a sequence is taken as it is, so a part between two places is what lies between them
(`partOf_middle`). The rows of a table stand one after the other (`map_range_table`,
`take_drop_table`). Of rows of one length that do, each row is the part at its own place
(`getElem?_flatMap_rows`, `extract_flatten_rows`).
-/

namespace Regrid

theorem boundedPlace_natCast {n i : Nat} (h : i ≤ n) : boundedPlace n i = i := by
  unfold boundedPlace
  rw [if_neg (by omega), Int.toNat_natCast, Nat.min_eq_right h]

/-- A place that is not negative is as far from the front as it says, up to the end. -/
theorem boundedPlace_le_iff {n k : Nat} {i : Int} (hi : 0 ≤ i) (hk : k < n) :
    boundedPlace n i ≤ k ↔ i ≤ k := by
  unfold boundedPlace
  omega

theorem lt_boundedPlace_iff {n k : Nat} {i : Int} (hi : 0 ≤ i) (hk : k < n) :
    k < boundedPlace n i ↔ (k : Int) < i := by
  unfold boundedPlace
  omega

/-- A part of a list in the middle. -/
theorem partOf_middle {β : Type} (before part after : List β) :
    partOf (before ++ (part ++ after)) before.length (before.length + part.length : Nat) =
      part := by
  have hlen : (before ++ (part ++ after)).length =
      before.length + part.length + after.length := by
    rw [List.length_append, List.length_append, Nat.add_assoc]
  unfold partOf
  simp only
  rw [boundedPlace_natCast (by omega), boundedPlace_natCast (by omega), List.drop_left,
    Nat.add_sub_cancel_left, List.take_left]

/-- All values of an array, one after the other. -/
theorem map_range_getD {α : Type} (xs : Array α) (d : α) :
    ((List.range xs.size).map fun n => xs.getD n d) = xs.toList := by
  apply List.ext_getElem
  · simp
  · intro n h1 h2
    have hn : n < xs.size := by simpa using h2
    simp [Array.getD, hn]

theorem getD_map_range {α : Type} {n i : Nat} (hi : i < n) (f : Nat → α) (d : α) :
    ((List.range n).map f).toArray.getD i d = f i := by
  rw [Array.getD_eq_getD_getElem?, List.getElem?_toArray, List.getElem?_map,
    List.getElem?_range hi, Option.map_some, Option.getD_some]

/-! ## Rows one after the other -/

/-- The numbers of a table of rows, row by row, are those up to its size. -/
theorem flatMap_range_table (columns : Nat) : ∀ rows : Nat,
    ((List.range rows).flatMap fun j => (List.range columns).map fun i => j * columns + i) =
      List.range (rows * columns)
  | 0 => by
    rw [Nat.zero_mul]
    rfl
  | rows + 1 => by
    rw [List.range_succ, List.flatMap_append, flatMap_range_table columns rows, Nat.succ_mul,
      List.range_add, List.flatMap_singleton]

theorem map_range_table {α : Type} (columns rows : Nat) (f : Nat → α) :
    (List.range (rows * columns)).map f =
      (List.range rows).flatMap fun j => (List.range columns).map fun i => f (j * columns + i) := by
  rw [← flatMap_range_table, List.map_flatMap]
  simp only [List.map_map]
  rfl

/-- A row of a table is the part at its place. -/
theorem take_drop_table {α : Type} {rows columns j : Nat} (hj : j < rows) (f : Nat → α) :
    (((List.range (rows * columns)).map f).drop (j * columns)).take columns =
      (List.range columns).map fun i => f (j * columns + i) := by
  have hend : j * columns + columns ≤ rows * columns := by
    rw [← Nat.succ_mul]
    exact Nat.mul_le_mul_right columns hj
  apply List.ext_getElem
  · simp only [List.length_take, List.length_drop, List.length_map, List.length_range]
    omega
  · intro i hi hi'
    simp only [List.getElem_take, List.getElem_drop, List.getElem_map, List.getElem_range]

theorem getElem?_flatMap_rows {α β : Type} {f : α → List β} {n : Nat}
    (hf : ∀ x, (f x).length = n) {t : Nat} (ht : t < n) : ∀ (xs : List α) (i : Nat),
    (xs.flatMap f)[n * i + t]? = xs[i]?.bind fun x => (f x)[t]?
  | [], i => by simp
  | x :: xs, 0 => by
    rw [List.flatMap_cons, Nat.mul_zero, Nat.zero_add,
      List.getElem?_append_left (by rw [hf]; exact ht)]
    rfl
  | x :: xs, i + 1 => by
    have hlen : (f x).length ≤ n * (i + 1) + t := by
      rw [hf, Nat.mul_succ]
      omega
    have hsub : n * (i + 1) + t - (f x).length = n * i + t := by
      rw [hf, Nat.mul_succ]
      omega
    rw [List.flatMap_cons, List.getElem?_append_right hlen, hsub, getElem?_flatMap_rows hf ht xs i]
    rfl

section Flatten

variable {β : Type} {f : Nat → Array β} {n count k : Nat} (hf : ∀ k, (f k).size = n)
include hf

theorem size_flatten_rows : ((List.range count).map f).toArray.flatten.size = count * n := by
  simp only [Array.flatten_toArray, List.map_map, Function.comp_def, List.size_toArray,
    List.length_flatten, Array.length_toList, hf, List.map_const', List.length_range,
    List.sum_replicate_nat]

theorem getElem?_flatten_rows (hk : k < count) {t : Nat} (ht : t < n) :
    ((List.range count).map f).toArray.flatten[k * n + t]? = (f k)[t]? := by
  have hrows := getElem?_flatMap_rows (f := fun k => (f k).toList)
    (fun k => (Array.length_toList).trans (hf k)) ht (List.range count) k
  rw [List.getElem?_range hk, Option.bind_some, Nat.mul_comm, List.flatMap_def] at hrows
  rw [← Array.getElem?_toList, Array.toList_flatten, List.map_map, ← Array.getElem?_toList]
  exact hrows

/-- **Of arrays of one length** one after the other, each is the part at its place. -/
theorem extract_flatten_rows (hk : k < count) :
    ((List.range count).map f).toArray.flatten.extract (k * n) ((k + 1) * n) = f k := by
  refine Array.ext_getElem? fun t => ?_
  have hend : (k + 1) * n ≤ count * n := Nat.mul_le_mul_right n hk
  rw [Array.getElem?_extract, size_flatten_rows hf, Nat.min_eq_left hend, Nat.add_mul, Nat.one_mul,
    Nat.add_sub_cancel_left]
  split_ifs with ht
  · exact getElem?_flatten_rows hf hk ht
  · exact (Array.getElem?_eq_none ((hf k).symm ▸ Nat.le_of_not_lt ht)).symm

end Flatten

end Regrid

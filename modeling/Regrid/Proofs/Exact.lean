import Mathlib.Algebra.BigOperators.Intervals
import Mathlib.Algebra.BigOperators.Ring.Finset
import Mathlib.Algebra.Field.Rat
import Mathlib.Algebra.Order.Ring.Rat
import Mathlib.Data.Int.ConditionallyCompleteOrder
import Mathlib.Order.CompletePartialOrder
import Mathlib.Tactic.Linarith
import Mathlib.Tactic.Ring
import Regrid.Scalar

/-!
# Exact sums

Over the rational numbers a sum from the left is the sum of the list, in any order. A list of terms
is summed up by key (`sum_map_ite`, `sum_map_sum`), along the lists it is put together from
(`sum_map_flatMap`) and in blocks of equal length (`sum_range_mul`).
-/

namespace Regrid

/-- A sum from the left is the sum. -/
theorem Scalar.sum_eq (xs : List Rat) : Scalar.sum xs = xs.sum :=
  List.sum_eq_foldl.symm

theorem sum_map_range {M : Type} [AddCommMonoid M] (n : Nat) (f : Nat → M) :
    ((List.range n).map f).sum = ∑ i ∈ Finset.range n, f i := rfl

section Lists

variable {α β : Type}

theorem sum_map_flatMap (xs : List α) (f : α → List β) (g : β → Rat) :
    ((xs.flatMap f).map g).sum = (xs.map fun x => ((f x).map g).sum).sum := by
  induction xs with
  | nil => rfl
  | cons x xs ih => rw [List.flatMap_cons, List.map_append, List.sum_append, ih, List.map_cons,
      List.sum_cons]

/-- Terms that are zero can be left out. -/
theorem sum_map_filter_of_zero (p : α → Bool) {xs : List α} {f : α → Rat}
    (h : ∀ x ∈ xs, p x = false → f x = 0) : ((xs.filter p).map f).sum = (xs.map f).sum := by
  induction xs with
  | nil => rfl
  | cons x xs ih =>
    have ih := ih fun y hy => h y (List.mem_cons_of_mem x hy)
    rw [List.filter_cons, List.map_cons, List.sum_cons]
    by_cases hp : p x = true
    · rw [if_pos hp, List.map_cons, List.sum_cons, ih]
    · rw [if_neg hp, ih, h x List.mem_cons_self (by simpa using hp), zero_add]

/-- Summing the terms that pass a test counts the others as zero. -/
theorem sum_map_filter (p : α → Bool) (xs : List α) (f : α → Rat) :
    ((xs.filter p).map f).sum = (xs.map fun x => if p x then f x else 0).sum := by
  induction xs with
  | nil => rfl
  | cons x xs ih =>
    rw [List.filter_cons, List.map_cons, List.sum_cons]
    by_cases h : p x = true
    · rw [if_pos h, if_pos h, List.map_cons, List.sum_cons, ih]
    · rw [if_neg h, if_neg h, zero_add, ih]

/-- A sum of terms that are sums themselves can be taken the other way round. -/
theorem sum_map_sum {ι : Type} (xs : List α) (s : Finset ι) (f : α → ι → Rat) :
    (xs.map fun x => ∑ i ∈ s, f x i).sum = ∑ i ∈ s, (xs.map fun x => f x i).sum := by
  induction xs with
  | nil => simp
  | cons x xs ih => simp only [List.map_cons, List.sum_cons, ih, Finset.sum_add_distrib]

/-- A sum over two lists can be taken the other way round. -/
theorem sum_map_comm (xs : List α) (ys : List β) (f : α → β → Rat) :
    (xs.map fun x => (ys.map fun y => f x y).sum).sum =
      (ys.map fun y => (xs.map fun x => f x y).sum).sum := by
  induction xs with
  | nil => simp
  | cons x xs ih => simp only [List.map_cons, List.sum_cons, ih, List.sum_map_add]

/-- Summing up by key: every term has one key of the set. -/
theorem sum_map_ite {ι : Type} [DecidableEq ι] (xs : List α) (s : Finset ι) (key : α → ι)
    (f : α → Rat) (h : ∀ x ∈ xs, key x ∈ s) :
    (xs.map f).sum = ∑ i ∈ s, (xs.map fun x => if key x = i then f x else 0).sum := by
  rw [← sum_map_sum]
  congr 1
  refine List.map_congr_left fun x hx => ?_
  rw [Finset.sum_ite_eq, if_pos (h x hx)]

end Lists

theorem getD_map {α β : Type} {xs : Array α} {i : Nat} (hi : i < xs.size) (f : α → β) (d : α)
    (d' : β) : (xs.map f).getD i d' = f (xs.getD i d) := by
  simp [Array.getD, hi]

/-- An array is zero if every element is. -/
theorem eq_replicate_zero_iff {xs : Array Rat} {n : Nat} (h : xs.size = n) :
    xs = Array.replicate n 0 ↔ ∀ k, k < n → xs.getD k 0 = 0 := by
  rw [Array.eq_replicate_iff, and_iff_right h]
  refine ⟨fun hzero k hk => ?_, fun hzero x hx => ?_⟩
  · rw [← h] at hk
    rw [Array.getD, dif_pos hk]
    exact hzero _ (Array.getElem_mem hk)
  · obtain ⟨k, hk, rfl⟩ := Array.mem_iff_getElem.mp hx
    have hget := hzero k (by rwa [← h])
    rwa [Array.getD, dif_pos hk] at hget

/-- The sum of products of arrays of equal length. -/
theorem Scalar.dot_eq {xs ys : Array Rat} {n : Nat} (hx : xs.size = n) (hy : ys.size = n) :
    Scalar.dot xs ys = ∑ i ∈ Finset.range n, xs.getD i 0 * ys.getD i 0 := by
  have hlist : (Array.zipWith (· * ·) xs ys).toList =
      (List.range n).map fun i => xs.getD i 0 * ys.getD i 0 := by
    apply List.ext_getElem
    · simp [hx, hy]
    · intro i h1 h2
      have hi : i < n := by simpa using h2
      simp [Array.getD, hx, hy, hi]
  rw [Scalar.dot, Scalar.sum_eq, hlist, sum_map_range]

/-- A sum over blocks of equal length. -/
theorem sum_range_mul (m n : Nat) (f : Nat → Rat) :
    ∑ k ∈ Finset.range (m * n), f k =
      ∑ j ∈ Finset.range m, ∑ i ∈ Finset.range n, f (j * n + i) := by
  induction m with
  | zero => simp
  | succ m ih => rw [Nat.succ_mul, Finset.sum_range_add, ih, Finset.sum_range_succ]

end Regrid

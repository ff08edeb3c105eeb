import Regrid.Proofs.Extended
import Regrid.Proofs.Outcome
import Regrid.Proofs.Sparse.Dense

/-!
# Finite values

What is no number is not finite (`LawfulScalar`), in binary and in exact arithmetic. In exact
arithmetic nothing else comes between: a sum or a product of values is finite just if the values
are, for there is no overflow (`ExactScalar`). So a sum of many is finite just if each term is
(`isFinite_sum`), and sums by row are finite if the terms of the rows are (`bucketSums_finite_iff`).

`checkFinite_eq` is the check of values that are named by what they belong to: it passes if all are
finite, and names those that are not in their order.
-/

namespace Regrid

/-- Scalars with a finite zero, of which none is finite and no number. -/
class LawfulScalar (α : Type) [Scalar α] : Prop where
  isFinite_zero : Scalar.isFinite (0 : α) = true
  isFinite_of_isNaN : ∀ x : α, Scalar.isNaN x = true → Scalar.isFinite x = false

/-- Scalars whose sums and products are finite just if all that goes into them is. -/
class ExactScalar (α : Type) [Scalar α] : Prop extends LawfulScalar α where
  isFinite_ofNat : ∀ n : Nat, Scalar.isFinite (Scalar.ofNat n : α) = true
  isFinite_neg : ∀ x : α, Scalar.isFinite (-x) = Scalar.isFinite x
  isFinite_add : ∀ x y : α, Scalar.isFinite (x + y) = (Scalar.isFinite x && Scalar.isFinite y)
  isFinite_mul : ∀ x y : α, Scalar.isFinite (x * y) = (Scalar.isFinite x && Scalar.isFinite y)
  beq_of_isNaN : ∀ x y : α, Scalar.isNaN x = true → (x == y) = false
  isFinite_one_div : ∀ x : α, (x == 0) = false → Scalar.isFinite (1 / x) = !Scalar.isNaN x

instance : LawfulScalar Float where
  isFinite_zero := by decide +kernel
  isFinite_of_isNaN x h := by
    have hbits : x.toModel.unpack.isNaN = true := h
    show x.toModel.unpack.isFinite = false
    cases hx : x.toModel.unpack <;> rw [hx] at hbits <;> first | rfl | cases hbits

instance : ExactScalar Rat where
  isFinite_zero := rfl
  isFinite_of_isNaN _ h := nomatch h
  isFinite_ofNat _ := rfl
  isFinite_neg _ := rfl
  isFinite_add _ _ := rfl
  isFinite_mul _ _ := rfl
  beq_of_isNaN _ _ h := nomatch h
  isFinite_one_div _ _ := rfl

instance : ExactScalar Extended where
  isFinite_zero := rfl
  isFinite_of_isNaN x h := by
    obtain rfl : x = .undefined := of_decide_eq_true h
    rfl
  isFinite_ofNat _ := rfl
  isFinite_neg x := by cases x <;> rfl
  isFinite_add x y := by
    cases x with
    | number p => cases y <;> rfl
    | undefined => rfl
    | infinite b =>
      cases y with
      | number q => rfl
      | undefined => rfl
      | infinite c => cases b <;> cases c <;> rfl
  isFinite_mul x y := by
    -- An infinity times a number is an infinity, or none: which of them depends on the number.
    have hmixed : ∀ x y : Extended, Scalar.isFinite (if x = .number 0 ∨ y = .number 0 then
        Extended.undefined else .infinite (x.isNegative != y.isNegative)) = false := by
      intro x y
      split_ifs <;> rfl
    cases x with
    | number p =>
      cases y with
      | number q => rfl
      | undefined => rfl
      | infinite c => exact hmixed _ _
    | undefined => cases y <;> rfl
    | infinite b =>
      cases y with
      | number q => exact hmixed _ _
      | undefined => rfl
      | infinite c => rfl
  beq_of_isNaN x y h := by
    obtain rfl : x = .undefined := of_decide_eq_true h
    rfl
  isFinite_one_div x h := by
    cases x with
    | number q =>
      have hq : q ≠ 0 := by simpa [Extended.number_zero, Extended.number_beq] using h
      rw [Extended.number_one, Extended.number_div hq]
      rfl
    | infinite b => rfl
    | undefined => rfl

theorem isNaN_of_isFinite {α : Type} [Scalar α] [LawfulScalar α] {x : α}
    (h : Scalar.isFinite x = true) : Scalar.isNaN x = false := by
  by_contra hnan
  cases h.symm.trans (LawfulScalar.isFinite_of_isNaN x (Bool.eq_true_of_not_eq_false hnan))

/-! ## Sums and products -/

section Exact

variable {α : Type} [Scalar α] [ExactScalar α]

/-- **A sum is finite** just if its terms are. -/
theorem isFinite_sum (xs : List α) :
    Scalar.isFinite (Scalar.sum xs) = true ↔ ∀ x ∈ xs, Scalar.isFinite x = true := by
  have hfold : ∀ (xs : List α) (acc : α), Scalar.isFinite (xs.foldl (· + ·) acc) = true ↔
      Scalar.isFinite acc = true ∧ ∀ x ∈ xs, Scalar.isFinite x = true := by
    intro xs
    induction xs with
    | nil => simp
    | cons x xs ih =>
      intro acc
      rw [List.foldl_cons, ih, ExactScalar.isFinite_add, Bool.and_eq_true, List.forall_mem_cons,
        and_assoc]
  exact (hfold xs 0).trans (and_iff_right LawfulScalar.isFinite_zero)

theorem isFinite_mul_iff {x y : α} : Scalar.isFinite (x * y) = true ↔
    Scalar.isFinite x = true ∧ Scalar.isFinite y = true := by
  rw [ExactScalar.isFinite_mul, Bool.and_eq_true]

theorem isFinite_dot_self {xs : Array α} (h : ∀ x ∈ xs.toList, Scalar.isFinite x = true) :
    Scalar.isFinite (Scalar.dot xs xs) = true := by
  refine (isFinite_sum _).mpr fun x hx => ?_
  rw [Array.toList_zipWith, List.zipWith_self] at hx
  obtain ⟨y, hy, rfl⟩ := List.mem_map.mp hx
  exact isFinite_mul_iff.mpr ⟨h y hy, h y hy⟩

theorem isFinite_getD {xs : Array α} (h : ∀ x ∈ xs, Scalar.isFinite x = true) (i : Nat) :
    Scalar.isFinite (xs.getD i 0) = true := by
  unfold Array.getD
  split_ifs with hi
  · exact h _ (Array.getElem_mem hi)
  · exact LawfulScalar.isFinite_zero

theorem isFinite_getElem_bucketSums {n i : Nat} {terms : List (Nat × α)}
    (hi : i < (SparseMatrix.bucketSums n terms).size) :
    Scalar.isFinite (SparseMatrix.bucketSums n terms)[i] = true ↔
      ∀ t ∈ terms, t.1 = i → Scalar.isFinite t.2 = true := by
  have hsum := SparseMatrix.getD_bucketSums (SparseMatrix.size_bucketSums n terms ▸ hi) terms
  rw [Array.getD, dif_pos hi] at hsum
  refine (iff_of_eq (congrArg (fun x => Scalar.isFinite x = true) hsum)).trans ?_
  rw [isFinite_sum, List.forall_mem_map]
  simp only [List.mem_filter, decide_eq_true_eq, and_imp]

/-- Sums by row are finite if all terms are. -/
theorem isFinite_bucketSums {n : Nat} {terms : List (Nat × α)}
    (h : ∀ t ∈ terms, Scalar.isFinite t.2 = true) :
    ∀ x ∈ SparseMatrix.bucketSums n terms, Scalar.isFinite x = true :=
  Array.forall_mem_iff_forall_getElem.mpr fun _ hi =>
    (isFinite_getElem_bucketSums hi).mpr fun t ht _ => h t ht

/-- And only then, where each has a row. -/
theorem bucketSums_finite_iff {n : Nat} {terms : List (Nat × α)} (hrow : ∀ t ∈ terms, t.1 < n) :
    (∀ x ∈ SparseMatrix.bucketSums n terms, Scalar.isFinite x = true) ↔
      ∀ t ∈ terms, Scalar.isFinite t.2 = true := by
  refine ⟨fun h t ht => ?_, isFinite_bucketSums⟩
  have hi : t.1 < (SparseMatrix.bucketSums n terms).size :=
    (SparseMatrix.size_bucketSums n terms).symm ▸ hrow t ht
  exact (isFinite_getElem_bucketSums hi).mp (h _ (Array.getElem_mem hi)) t ht rfl

end Exact

/-! ## Checks -/

section Checks

variable {α β : Type} [Scalar α]

theorem nonFinitePlaces_eq (ms : List β) (value : β → α) : nonFinitePlaces (ms.map value).toArray =
    (ms.zipIdx.filter fun t => !Scalar.isFinite (value t.1)).map Prod.snd := by
  rw [nonFinitePlaces, List.zipIdx_map, List.filterMap_map, ← List.filterMap_eq_map,
    ← List.filterMap_eq_filter, List.filterMap_filterMap]
  refine congrArg (List.filterMap · _) (funext fun t => ?_)
  cases hfinite : Scalar.isFinite (value t.1) <;> simp [hfinite, Option.guard]

/-- **A check** names what is not finite, each by what it belongs to. -/
theorem checkFinite_eq (name : String) {ms bad : List β} {value : β → α} (datum : β → Datum)
    (hbad : (ms.filter fun m => !Scalar.isFinite (value m)) = bad) :
    checkFinite name (ms.map value).toArray (fun i => (ms[i]?).map datum) =
      if bad = [] then .ok () else .error (.nonFinite name (bad.map datum)) := by
  obtain ⟨places, hplaces⟩ : ∃ places,
    (ms.zipIdx.filter fun t => !Scalar.isFinite (value t.1)) = places := ⟨_, rfl⟩
  have hfst : places.map Prod.fst = bad := by
    rw [← hplaces, ← hbad, ← List.zipIdx_map_fst 0 ms, List.filter_map, List.zipIdx_map_fst]
    rfl
  have hnames : (places.map Prod.snd).mapM (fun i => (ms[i]?).map datum) =
      some (bad.map datum) := by
    rw [List.mapM_map, ← hfst, List.map_map]
    refine mapM_some fun t ht => ?_
    rw [← hplaces] at ht
    have hget : ms[t.2]? = some t.1 :=
      List.mk_mem_zipIdx_iff_getElem?.mp (List.mem_filter.mp ht).1
    simp only [Function.comp, hget, Option.map_some]
  rw [checkFinite, nonFinitePlaces_eq, hplaces]
  by_cases hnone : bad = []
  · have hempty : places = [] := List.map_eq_nil_iff.mp (hfst.trans hnone)
    rw [if_pos hnone, hempty]
    rfl
  · have hsome : places.map Prod.snd ≠ [] := fun h => hnone (by
      rw [← hfst, List.map_eq_nil_iff.mp h]
      rfl)
    rw [if_neg hnone]
    split
    · rename_i h
      exact absurd h hsome
    · rw [hnames]

end Checks

end Regrid

import Mathlib.Algebra.BigOperators.Field
import Mathlib.Algebra.BigOperators.Finprod
import Mathlib.Tactic.FieldSimp
import Regrid.Proofs.LatLon.Intersection

/-!
# Arcs on the circle

What two arcs have in common is a sum over all turns (`arcCommon_eq_finsum`). So it does not matter
which arc is named first (`arcCommon_comm`), or by how many turns an arc is moved
(`arcCommon_add_turn`), and an arc can be cut in two (`arcCommon_additive`).

`sum_cuts` adds up the parts of a stretch that is cut many times, and `sum_refining` goes on from
there: where the cells of a lattice are such parts, what a stretch has in common with another is the
sum over the cells of what each passes on.
-/

namespace Regrid

/-! ## Intervals -/

/-- What a stretch from `c` to `e` has is the sum of what its parts before and behind `d` have. -/
def CutAdditive (F : Rat → Rat → Rat) : Prop :=
  ∀ c d e, c ≤ d → d ≤ e → F c e = F c d + F d e

theorem common_comm (a b c d : Rat) : common a b c d = common c d a b := by
  unfold common
  rw [min_comm b d, max_comm a c]

theorem common_additive {a b : Rat} (hab : a ≤ b) : CutAdditive (common a b) := by
  intro c d e hcd hde
  rw [common_comm a b c e, common_comm a b c d, common_comm a b d e,
    common_eq_sub (hcd.trans hde) hab, common_eq_sub hcd hab, common_eq_sub hde hab]
  ring

/-- Moving both intervals. -/
theorem common_add (k a b c d : Rat) : common (a + k) (b + k) (c + k) (d + k) = common a b c d := by
  have h := common_affine (m := 1) zero_le_one k a b c d
  simpa only [one_mul] using h

/-- Unit intervals between whole numbers are equal or apart. -/
theorem common_unit (m n : Int) : common m (m + 1) n (n + 1) = if m = n then 1 else 0 := by
  by_cases h : m = n
  · subst h
    rw [if_pos rfl, common, min_self, max_self, add_sub_cancel_left, max_eq_right zero_le_one]
  · rw [if_neg h]
    refine common_eq_zero_of_le ?_
    rcases lt_or_gt_of_ne h with hlt | hlt
    · right
      exact_mod_cast hlt
    · left
      exact_mod_cast hlt

/-! ## Turns -/

section Turns

variable (a b c d : Rat)

/-- Only finitely many turns count. -/
theorem turns_subset : (Function.support fun t : Int => common a b (c + t) (d + t)) ⊆
    Finset.Icc (Rat.floor (a - d)) (Rat.ceil (b - c)) := by
  intro t ht
  by_contra hout
  exact ht (common_turn_eq_zero (by exact_mod_cast hout))

/-- **What arcs have in common** is a sum over all turns. -/
theorem arcCommon_eq_finsum : arcCommon a b c d = ∑ᶠ t : Int, common a b (c + t) (d + t) :=
  (finsum_eq_sum_of_support_subset _ (turns_subset a b c d)).symm

/-- Which arc is named first does not matter. -/
theorem arcCommon_comm : arcCommon a b c d = arcCommon c d a b := by
  rw [arcCommon_eq_finsum, arcCommon_eq_finsum, ← finsum_comp_equiv (Equiv.neg Int)]
  refine finsum_congr fun t => ?_
  rw [common_comm, ← common_add t]
  simp only [Equiv.neg_apply, Int.cast_neg, neg_add_cancel_right]

/-- **An arc can be turned** as often as one likes. -/
theorem arcCommon_add_turn (t : Int) : arcCommon a b (c + t) (d + t) = arcCommon a b c d := by
  rw [arcCommon_eq_finsum, arcCommon_eq_finsum]
  refine (finsum_congr fun s => ?_).trans (finsum_comp_equiv (Equiv.addLeft t))
  simp only [Equiv.coe_addLeft, Int.cast_add, add_assoc]

/-- So can the arc that is named first. -/
theorem arcCommon_turn_add (t : Int) : arcCommon (a + t) (b + t) c d = arcCommon a b c d := by
  rw [arcCommon_comm, arcCommon_add_turn, arcCommon_comm]

end Turns

/-- **An arc can be cut.** -/
theorem arcCommon_additive {a b : Rat} (hab : a ≤ b) : CutAdditive (arcCommon a b) := by
  intro c d e hcd hde
  rw [arcCommon_eq_finsum, arcCommon_eq_finsum, arcCommon_eq_finsum,
    ← finsum_add_distrib ((Finset.finite_toSet _).subset (turns_subset a b c d))
      ((Finset.finite_toSet _).subset (turns_subset a b d e))]
  refine finsum_congr fun t => ?_
  exact common_additive hab _ _ _ (add_le_add_left hcd _) (add_le_add_left hde _)

/-! ## Cutting many times -/

section Cuts

variable {n p q : Nat} {x : Nat → Rat} {F : Rat → Rat → Rat}

/-- **A stretch has what its parts have.** -/
theorem sum_cuts (hF : CutAdditive F) (hx : Monotone x) (h : p ≤ q) :
    ∑ k ∈ Finset.Ico p q, F (x k) (x (k + 1)) = F (x p) (x q) := by
  induction q, h using Nat.le_induction with
  | base =>
    have hnone := hF (x p) (x p) (x p) le_rfl le_rfl
    rw [Finset.Ico_self, Finset.sum_empty]
    linarith
  | succ q h ih =>
    rw [Finset.sum_Ico_succ_top h, ih, ← hF _ _ _ (hx h) (hx q.le_succ)]

/-- **Passing through cells.** Between marks `p` and `q` lie cells, and `fold` says which of the `n`
cells that is. What a stretch has in common with each cell, times the part of the cell that lies
between the marks, sums to what it has in common with all that lies between them. -/
theorem sum_refining {G : Nat → Rat → Rat → Rat} {w : Nat → Rat} (fold : Nat → Nat)
    (hF : CutAdditive F) (hG : ∀ i, i < n → CutAdditive (G i)) (hx : Monotone x) (hpq : p ≤ q)
    (hw : ∀ i, i < n → w i ≠ 0) (hfold : ∀ k ∈ Finset.Ico p q, fold k < n)
    (hsame : ∀ k ∈ Finset.Ico p q, F (x (fold k)) (x (fold k + 1)) = F (x k) (x (k + 1)))
    (hcell : ∀ i, i < n → ∀ k ∈ Finset.Ico p q,
      G i (x k) (x (k + 1)) = if fold k = i then w i else 0) :
    ∑ i ∈ Finset.range n, F (x i) (x (i + 1)) * (G i (x p) (x q) / w i) = F (x p) (x q) := by
  have hpart : ∀ i ∈ Finset.range n, F (x i) (x (i + 1)) * (G i (x p) (x q) / w i) =
      ∑ k ∈ Finset.Ico p q, if fold k = i then F (x i) (x (i + 1)) else 0 := by
    intro i hi
    rw [Finset.mem_range] at hi
    rw [← sum_cuts (hG i hi) hx hpq, Finset.sum_div, Finset.mul_sum]
    refine Finset.sum_congr rfl fun k hk => ?_
    rw [hcell i hi k hk]
    by_cases h : fold k = i
    · rw [if_pos h, if_pos h, div_self (hw i hi), mul_one]
    · rw [if_neg h, if_neg h, zero_div, mul_zero]
  rw [Finset.sum_congr rfl hpart, Finset.sum_comm, ← sum_cuts hF hx hpq]
  refine Finset.sum_congr rfl fun k hk => ?_
  rw [Finset.sum_ite_eq, if_pos (Finset.mem_range.mpr (hfold k hk)), hsame k hk]

end Cuts

/-! ## The columns of a lattice -/

namespace Lattice

variable {l : Lattice Rat}

theorem meridian_mono (l : Lattice Rat) : Monotone l.meridian := by
  intro i j hij
  unfold meridian
  gcongr

/-- A turn of columns further on lies the same meridian, a turn later. -/
theorem meridian_add_turns (hn : 0 < l.columns) (i t : Nat) :
    l.meridian (i + t * l.columns) = l.meridian i + t := by
  have hne : (l.columns : Rat) ≠ 0 := by exact_mod_cast hn.ne'
  unfold meridian
  push_cast
  rw [← add_assoc, add_div, mul_div_cancel_right₀ _ hne]

/-- **Columns a turn apart are the same arc.** -/
theorem arcCommon_mod_column (hn : 0 < l.columns) (a b : Rat) (k : Nat) :
    arcCommon a b (l.meridian (k % l.columns)) (l.meridian (k % l.columns + 1)) =
      arcCommon a b (l.meridian k) (l.meridian (k + 1)) := by
  have hk : k = k % l.columns + k / l.columns * l.columns := (Nat.mod_add_div' k l.columns).symm
  have hwest : l.meridian k = l.meridian (k % l.columns) + (k / l.columns : Nat) := by
    rw [← meridian_add_turns hn, ← hk]
  have heast : l.meridian (k + 1) = l.meridian (k % l.columns + 1) + (k / l.columns : Nat) := by
    rw [← meridian_add_turns hn, add_right_comm, ← hk]
  rw [hwest, heast]
  exact (arcCommon_add_turn a b _ _ (k / l.columns : Nat)).symm

/-- **Columns of one lattice** are equal or apart. -/
theorem arcCommon_columns {i : Nat} (hi : i < l.columns) (k : Nat) :
    arcCommon (l.meridian i) (l.meridian (i + 1)) (l.meridian k) (l.meridian (k + 1)) =
      if k % l.columns = i then 1 / (l.columns : Rat) else 0 := by
  have hn : 0 < l.columns := by omega
  have hne : (l.columns : Rat) ≠ 0 := by exact_mod_cast hn.ne'
  have hk : k % l.columns < l.columns := Nat.mod_lt k hn
  rw [← arcCommon_mod_column hn]
  generalize k % l.columns = j at hk
  have hturn : ∀ t : Int, common (l.meridian i) (l.meridian (i + 1)) (l.meridian j + t)
      (l.meridian (j + 1) + t) =
        1 / (l.columns : Rat) * if (i : Int) = j + t * l.columns then 1 else 0 := by
    intro t
    rw [← common_unit, ← common_affine (by positivity) (l.offset / l.columns)]
    unfold meridian
    push_cast
    congr 1 <;> field_simp <;> ring
  rw [arcCommon_eq_finsum, finsum_congr hturn]
  rw [finsum_eq_single _ (0 : Int) fun t ht => ?_]
  · by_cases h : j = i
    · rw [if_pos h, if_pos (by omega), mul_one]
    · rw [if_neg h, if_neg (by omega), mul_zero]
  · have hfar : (i : Int) ≠ j + t * l.columns := by
      intro h
      rcases lt_or_gt_of_ne ht with hlt | hlt
      · nlinarith
      · nlinarith
    rw [if_neg hfar, mul_zero]

end Lattice

end Regrid

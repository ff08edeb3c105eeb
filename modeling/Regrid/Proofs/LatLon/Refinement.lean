import Regrid.Proofs.LatLon.Arcs

/-!
# Refinements

A lattice refines another one if its edges include those of the other, longitudes up to whole turns.
Then every cell of the coarse lattice is made of cells of the fine one. So what a band or an arc has
in common with a cell of the coarse lattice can be summed up over the cells of the fine one, each of
which passes on its part (`Refines.sum_bands`, `Refines.sum_columns`).
-/

namespace Regrid

namespace Lattice

/-- The edges of the coarse lattice are edges of the fine one, longitudes up to whole turns. -/
structure Refines (fine coarse : Lattice Rat) : Prop where
  bands : ∀ j, j ≤ coarse.rows → ∃ k, k ≤ fine.rows ∧ fine.edge k = coarse.edge j
  columns : ∀ i, i ≤ coarse.columns →
    ∃ k, k ≤ fine.columns ∧ ∃ t : Int, fine.meridian k + t = coarse.meridian i

variable {fine coarse : Lattice Rat}

/-! ## Bands -/

/-- The bands of a lattice are equal or apart. -/
theorem common_bands (hf : fine.Partition) {i k : Nat} (hi : i < fine.rows) (hk : k < fine.rows) :
    common (fine.edge i) (fine.edge (i + 1)) (fine.edge k) (fine.edge (k + 1)) =
      if k = i then fine.band i else 0 := by
  by_cases h : k = i
  · rw [if_pos h, h, common, min_self, max_self, max_eq_right (sub_nonneg.mpr
      (hf.increasing i hi).le)]
    rfl
  · rw [if_neg h]
    refine common_eq_zero_of_le ?_
    rcases Nat.lt_or_gt_of_ne h with hlt | hlt
    · exact .inl (hf.edge_le hlt hi.le)
    · exact .inr (hf.edge_le hlt hk.le)

/-- **What is in common with a band of the coarse lattice** is summed up over the fine one. -/
theorem Refines.sum_bands (h : fine.Refines coarse) (hf : fine.Partition) (hc : coarse.Partition)
    {a b : Rat} (hab : a ≤ b) {k : Nat} (hk : k < coarse.rows) :
    ∑ i ∈ Finset.range fine.rows, common a b (fine.edge i) (fine.edge (i + 1))
        * (common (fine.edge i) (fine.edge (i + 1)) (coarse.edge k) (coarse.edge (k + 1))
          / fine.band i) =
      common a b (coarse.edge k) (coarse.edge (k + 1)) := by
  obtain ⟨p, hp, hsouth⟩ := h.bands k hk.le
  obtain ⟨q, hq, hnorth⟩ := h.bands (k + 1) hk
  have hpq : p ≤ q := by
    by_contra hlt
    have hedge := hf.edge_le (Nat.le_of_not_le hlt) hp
    rw [hsouth, hnorth] at hedge
    exact absurd (hc.increasing k hk) (not_lt.mpr hedge)
  have hmark : ∀ {i}, i ≤ fine.rows → fine.ruler (i : Nat) = fine.edge i :=
    fun hi => ruler_natCast hi
  have hin : ∀ {i}, i ∈ Finset.Ico p q → i < fine.rows :=
    fun hi => (Finset.mem_Ico.mp hi).2.trans_le hq
  have hsum := sum_refining (n := fine.rows) (x := fun i => fine.ruler (i : Nat))
    (F := common a b) (G := fun i => common (fine.edge i) (fine.edge (i + 1))) (w := fine.band)
    id (common_additive hab) (fun i hi => common_additive (hf.increasing i hi).le)
    (fun i j hij => hf.ruler_mono (Int.ofNat_le.mpr hij)) hpq
    (fun i hi => (hf.band_pos hi).ne') (fun i hi => hin hi) (fun i _ => rfl)
    (fun i hi k hk => by
      rw [hmark (hin hk).le, hmark (hin hk)]
      exact common_bands hf hi (hin hk))
  rw [hmark hp, hmark hq, hsouth, hnorth] at hsum
  rw [← hsum]
  refine Finset.sum_congr rfl fun i hi => ?_
  rw [Finset.mem_range] at hi
  rw [hmark hi.le, hmark hi]

/-! ## Columns -/

/-- A column of the coarse lattice goes from one meridian of the fine one to another, counted over
the date line. -/
theorem Refines.exists_marks (h : fine.Refines coarse) (hf : fine.Partition) {l : Nat}
    (hl : l < coarse.columns) : ∃ p q : Nat, p ≤ q ∧ ∃ t : Int,
      fine.meridian p + t = coarse.meridian l ∧ fine.meridian q + t = coarse.meridian (l + 1) := by
  obtain ⟨p, -, t, hwest⟩ := h.columns l hl.le
  obtain ⟨k, -, s, heast⟩ := h.columns (l + 1) hl
  have hn : (0 : Rat) < fine.columns := by exact_mod_cast hf.columns_pos
  have hplace : fine.meridian k + s =
      (fine.offset + (k + (s - t) * fine.columns : Int)) / fine.columns + t := by
    unfold meridian
    push_cast
    field_simp
    ring
  have hpq : (p : Int) ≤ k + (s - t) * fine.columns := by
    have hle := coarse.meridian_mono l.le_succ
    rw [← hwest, ← heast, hplace, add_le_add_iff_right, meridian, div_le_div_iff_of_pos_right hn,
      add_le_add_iff_left] at hle
    exact_mod_cast hle
  obtain ⟨q, hq⟩ := Int.eq_ofNat_of_zero_le ((Int.natCast_nonneg p).trans hpq)
  refine ⟨p, q, by omega, t, hwest, ?_⟩
  rw [← heast, hplace, hq, meridian, Int.cast_natCast]

/-- **What is in common with a column of the coarse lattice** is summed up over the fine one. -/
theorem Refines.sum_columns (h : fine.Refines coarse) (hf : fine.Partition) {a b : Rat}
    (hab : a ≤ b) {l : Nat} (hl : l < coarse.columns) :
    ∑ i ∈ Finset.range fine.columns, arcCommon a b (fine.meridian i) (fine.meridian (i + 1))
        * (arcCommon (fine.meridian i) (fine.meridian (i + 1)) (coarse.meridian l)
          (coarse.meridian (l + 1)) / (1 / fine.columns)) =
      arcCommon a b (coarse.meridian l) (coarse.meridian (l + 1)) := by
  obtain ⟨p, q, hpq, t, hwest, heast⟩ := h.exists_marks hf hl
  have hn := hf.columns_pos
  rw [← hwest, ← heast, arcCommon_add_turn]
  simp only [arcCommon_add_turn]
  exact sum_refining (fun k => k % fine.columns) (arcCommon_additive hab)
    (fun i _ => arcCommon_additive (fine.meridian_mono i.le_succ)) fine.meridian_mono hpq
    (fun i _ => one_div_ne_zero (by exact_mod_cast hn.ne')) (fun k _ => Nat.mod_lt k hn)
    (fun k _ => arcCommon_mod_column hn a b k) (fun i hi k _ => arcCommon_columns hi k)

/-! ## Lattices in the middle -/

section Through

variable {source middle target : Lattice Rat} (hm : middle.Partition)
  (h : middle.Refines source ∨ middle.Refines target)
include hm h

/-- **Bands in the middle pass on all** that two bands have in common. -/
theorem sum_bands_through (hs : source.Partition) (ht : target.Partition) {j k : Nat}
    (hj : j < target.rows) (hk : k < source.rows) :
    ∑ p ∈ Finset.range middle.rows,
        common (target.edge j) (target.edge (j + 1)) (middle.edge p) (middle.edge (p + 1))
          * (common (middle.edge p) (middle.edge (p + 1)) (source.edge k) (source.edge (k + 1))
            / middle.band p) =
      common (target.edge j) (target.edge (j + 1)) (source.edge k) (source.edge (k + 1)) := by
  rcases h with h | h
  · exact h.sum_bands hm hs (ht.increasing j hj).le hk
  · -- the target is made of middle bands, so the sum is read from the source
    rw [common_comm, ← h.sum_bands hm ht (hs.increasing k hk).le hj]
    refine Finset.sum_congr rfl fun p _ => ?_
    rw [common_comm (source.edge k), common_comm (target.edge j)]
    ring

/-- **Columns in the middle pass on all** that two columns have in common. -/
theorem sum_columns_through {i l : Nat} (hi : i < target.columns) (hl : l < source.columns) :
    ∑ q ∈ Finset.range middle.columns,
        arcCommon (target.meridian i) (target.meridian (i + 1)) (middle.meridian q)
            (middle.meridian (q + 1))
          * (arcCommon (middle.meridian q) (middle.meridian (q + 1)) (source.meridian l)
            (source.meridian (l + 1)) / (1 / middle.columns)) =
      arcCommon (target.meridian i) (target.meridian (i + 1)) (source.meridian l)
        (source.meridian (l + 1)) := by
  rcases h with h | h
  · exact h.sum_columns hm (target.meridian_mono i.le_succ) hl
  · rw [arcCommon_comm, ← h.sum_columns hm (source.meridian_mono l.le_succ) hi]
    refine Finset.sum_congr rfl fun q _ => ?_
    rw [arcCommon_comm (source.meridian l), arcCommon_comm (target.meridian i)]
    ring

end Through

end Lattice

end Regrid

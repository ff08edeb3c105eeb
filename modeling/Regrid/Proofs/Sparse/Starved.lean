import Regrid.Proofs.Sparse.Dense
import Regrid.Sparse.Starved

/-!
# What removing starved rows leaves

The rounds of removals come to the removal of some rows and some columns (`exists_deleted`). So an
entry of a row that is left goes only with its whole column, and the operator that is left is the
given one without these columns (`mulVec_removeStarved`).
-/

namespace Regrid

variable {α : Type}

/-- The entries outside of given rows and columns. -/
def outside (rows cols : List Nat) (entries : List (Entry α)) : List (Entry α) :=
  entries.filter fun e => !rows.contains e.row && !cols.contains e.col

theorem mem_outside {rows cols : List Nat} {entries : List (Entry α)} {e : Entry α} :
    e ∈ outside rows cols entries ↔ e ∈ entries ∧ e.row ∉ rows ∧ e.col ∉ cols := by
  simp [outside]

theorem outside_outside (rows rows' cols cols' : List Nat) (entries : List (Entry α)) :
    outside rows' cols' (outside rows cols entries) =
      outside (rows ++ rows') (cols ++ cols') entries := by
  unfold outside
  rw [List.filter_filter]
  refine List.filter_congr fun e _ => ?_
  rw [Bool.eq_iff_iff]
  simp only [Bool.and_eq_true, Bool.not_eq_true', List.contains_eq_mem, decide_eq_false_iff_not,
    List.mem_append, not_or]
  constructor
  · rintro ⟨⟨hr', hc'⟩, hr, hc⟩
    exact ⟨⟨hr, hr'⟩, hc, hc'⟩
  · rintro ⟨⟨hr, hr'⟩, hc, hc'⟩
    exact ⟨⟨hr', hc'⟩, hr, hc⟩

/-- One round removes the rows and the columns of the starved entries. -/
theorem withoutStarved_eq_outside (minimum : Number) (entries : List (Entry α)) :
    withoutStarved minimum entries =
      outside ((starved minimum entries).map Entry.row) ((starved minimum entries).map Entry.col)
        entries := by
  unfold withoutStarved outside
  refine List.filter_congr fun e _ => ?_
  rw [Bool.eq_iff_iff]
  simp only [Bool.not_eq_true', Bool.and_eq_true, List.any_eq_false, Bool.or_eq_true, beq_iff_eq,
    not_or, List.contains_eq_mem, decide_eq_false_iff_not, List.mem_map, not_exists, not_and]
  exact forall₂_and

/-- **All rounds together** remove some rows and some columns. -/
theorem exists_deleted (minimum : Number) (entries : List (Entry α)) :
    ∃ rows cols, pruneStarved minimum entries = outside rows cols entries := by
  induction entries using pruneStarved.induct minimum with
  | case1 entries h =>
    refine ⟨[], [], ?_⟩
    rw [pruneStarved, if_pos h]
    simp [outside]
  | case2 entries h ih =>
    obtain ⟨rows, cols, ih⟩ := ih
    refine ⟨(starved minimum entries).map Entry.row ++ rows,
      (starved minimum entries).map Entry.col ++ cols, ?_⟩
    rw [pruneStarved, if_neg h, ih, withoutStarved_eq_outside, outside_outside]

namespace SparseMatrix

theorem removeStarved_inBounds {m : SparseMatrix α} (h : m.InBounds) (minimum : Number) :
    (m.removeStarved minimum).InBounds := by
  obtain ⟨rows, cols, hkept⟩ := exists_deleted minimum m.entries
  intro e he
  have he : e ∈ pruneStarved minimum m.entries := he
  rw [hkept, mem_outside] at he
  exact h e he.1

/-- In a row that is left, an element stays or goes with its whole column. -/
theorem dense_removeStarved (m : SparseMatrix Rat) (minimum : Number) {row col : Nat}
    (hrow : row ∈ (m.removeStarved minimum).entries.map Entry.row) :
    (m.removeStarved minimum).dense row col =
      if col ∈ (m.removeStarved minimum).entries.map Entry.col then m.dense row col else 0 := by
  obtain ⟨rows, cols, hkept⟩ := exists_deleted minimum m.entries
  have hentries : (m.removeStarved minimum).entries = outside rows cols m.entries := hkept
  have hleft : row ∉ rows := by
    obtain ⟨e, he, rfl⟩ := List.mem_map.mp hrow
    rw [hentries, mem_outside] at he
    exact he.2.1
  rw [dense_eq, dense_eq, hentries]
  split_ifs with hcol
  · -- the column is not deleted, so the entries that are gone lie in other rows
    have hstays : col ∉ cols := by
      obtain ⟨e, he, rfl⟩ := List.mem_map.mp hcol
      exact (mem_outside.mp he).2.2
    refine sum_map_filter_of_zero _ fun e _ hgone => if_neg ?_
    rintro ⟨rfl, rfl⟩
    simp [hleft, hstays] at hgone
  · refine List.sum_eq_zero fun v hv => ?_
    obtain ⟨e, he, rfl⟩ := List.mem_map.mp hv
    refine if_neg fun h => hcol ?_
    rw [← h.2]
    exact List.mem_map_of_mem he

/-- **A row that is left is the given one without the columns that are gone.** -/
theorem mulVec_removeStarved (m : SparseMatrix Rat) (minimum : Number) (v : Nat → Rat) {row : Nat}
    (hrow : row ∈ (m.removeStarved minimum).entries.map Entry.row) :
    m.mulVec v row = (m.removeStarved minimum).mulVec v row +
      ∑ c ∈ Finset.range m.cols with c ∉ (m.removeStarved minimum).entries.map Entry.col,
        m.dense row c * v c := by
  have hcols : (m.removeStarved minimum).cols = m.cols := rfl
  unfold mulVec
  rw [hcols, Finset.sum_filter, ← Finset.sum_add_distrib]
  refine Finset.sum_congr rfl fun c _ => ?_
  rw [dense_removeStarved m minimum hrow]
  split_ifs <;> ring

end SparseMatrix

end Regrid

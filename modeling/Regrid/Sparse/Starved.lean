import Regrid.Sparse.Basic

/-!
# Removing starved rows

A row of constraints with too few entries is removed together with every column it touches. That can
starve other rows, so it is repeated until no row is starved. Each round removes an entry, so the
rounds end.

Model of `remove_small_constraints`.
-/

namespace Regrid

variable {α : Type}

/-- The number of entries in a row. -/
def rowCount (entries : List (Entry α)) (row : Nat) : Nat :=
  entries.countP fun e => e.row == row

/-- The entries of rows with fewer than `minimum` entries. -/
def starved (minimum : Number) (entries : List (Entry α)) : List (Entry α) :=
  entries.filter fun e => minimum.above (rowCount entries e.row)

/-- The entries that share neither a row nor a column with a starved one. -/
def withoutStarved (minimum : Number) (entries : List (Entry α)) : List (Entry α) :=
  let gone := starved minimum entries
  entries.filter fun e => !gone.any fun g => g.row == e.row || g.col == e.col

theorem length_withoutStarved_lt {minimum : Number} {entries : List (Entry α)}
    (h : starved minimum entries ≠ []) :
    (withoutStarved minimum entries).length < entries.length := by
  obtain ⟨g, hg⟩ := List.exists_mem_of_ne_nil _ h
  refine List.length_filter_lt_length_iff_exists.2 ⟨g, (List.mem_filter.1 hg).1, ?_⟩
  simp only [Bool.not_eq_true', Bool.not_eq_false, List.any_eq_true]
  exact ⟨g, hg, by simp⟩

/-- The entries that remain when starved rows and their columns are removed again and again. -/
def pruneStarved (minimum : Number) (entries : List (Entry α)) : List (Entry α) :=
  if starved minimum entries = [] then entries
  else pruneStarved minimum (withoutStarved minimum entries)
termination_by entries.length
decreasing_by exact length_withoutStarved_lt ‹_›

/-- The constraints without the rows that involve too few variables, and without the columns of
those rows (`remove_small_constraints`). -/
def SparseMatrix.removeStarved (m : SparseMatrix α) (minimum : Number) : SparseMatrix α :=
  { m with entries := pruneStarved minimum m.entries }

end Regrid

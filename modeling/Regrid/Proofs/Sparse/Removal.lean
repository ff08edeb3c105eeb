import Mathlib.Data.Finset.Sort
import Mathlib.Logic.Function.Iterate
import Mathlib.Logic.Relation
import Mathlib.Order.Bounds.Basic
import Regrid.Proofs.Number
import Regrid.Proofs.Sparse.Starved

/-!
# The columns that outlast all removals

A set of columns sustains the rows if none of them is starved in it (`Sustains`). A removal takes
some starved rows and the columns they touch (`Removal`; `remove_small_constraints` takes all of
them at once), so what it leaves are all entries in some columns, and it takes no column of a
sustaining set (`Outlasting.step`). Once no row is starved the columns that are left sustain the
rows themselves. So whatever the order of removals, the entries in the greatest sustaining set
remain (`removeStarved_greatest`).
-/

namespace Regrid

open Relation (ReflTransGen)

variable {α : Type} {minimum : Int} {before after : List (Entry α)}

/-! ## Sets of columns -/

/-- The entries in some columns. -/
def inColumns (columns : Finset Nat) (entries : List (Entry α)) : List (Entry α) :=
  entries.filter fun e => e.col ∈ columns

/-- In these columns every row has no entry or at least as many as it needs. -/
def Sustains (minimum : Int) (entries : List (Entry α)) (columns : Finset Nat) : Prop :=
  ∀ row, rowCount (inColumns columns entries) row = 0 ∨
    minimum ≤ rowCount (inColumns columns entries) row

theorem mem_inColumns {columns : Finset Nat} {entries : List (Entry α)} {e : Entry α} :
    e ∈ inColumns columns entries ↔ e ∈ entries ∧ e.col ∈ columns := by
  simp [inColumns]

/-- More columns have more entries of a row. -/
theorem rowCount_inColumns_mono {columns columns' : Finset Nat} (h : columns ⊆ columns')
    (entries : List (Entry α)) (row : Nat) :
    rowCount (inColumns columns entries) row ≤ rowCount (inColumns columns' entries) row := by
  refine List.Sublist.countP_le (List.monotone_filter_right entries fun e he => ?_)
  exact decide_eq_true (h (of_decide_eq_true he))

theorem rowCount_eq_zero {entries : List (Entry α)} {row : Nat} :
    rowCount entries row = 0 ↔ ∀ e ∈ entries, e.row ≠ row := by
  simp [rowCount, List.countP_eq_zero]

theorem mem_starved {entries : List (Entry α)} {e : Entry α} :
    e ∈ starved (.whole minimum) entries ↔
      e ∈ entries ∧ (rowCount entries e.row : Int) < minimum := by
  have habove : (Number.whole minimum).above (rowCount entries e.row) = true ↔
      (rowCount entries e.row : Int) < minimum := by
    rw [Number.above_iff (q := minimum) rfl]
    exact Int.cast_lt
  rw [starved, List.mem_filter, habove]

/-! ## Removals -/

/-- The columns of the entries in some rows. -/
def touched (rows : List Nat) (entries : List (Entry α)) : List Nat :=
  (entries.filter fun e => rows.contains e.row).map Entry.col

/-- Some starved rows go, at least one, and with them all columns that they touch. -/
def Removal (minimum : Int) (before after : List (Entry α)) : Prop :=
  ∃ rows ≠ [], (∀ row ∈ rows, row ∈ (starved (.whole minimum) before).map Entry.row) ∧
    after = outside rows (touched rows before) before

/-- The removed rows go with their columns already. -/
theorem outside_touched (rows : List Nat) (entries : List (Entry α)) :
    outside rows (touched rows entries) entries =
      entries.filter fun e => !(touched rows entries).contains e.col := by
  refine List.filter_congr fun e he => ?_
  by_cases hrow : rows.contains e.row = true
  · have hcol : (touched rows entries).contains e.col = true := List.contains_iff_mem.mpr
      (List.mem_map_of_mem (List.mem_filter.mpr ⟨he, hrow⟩))
    rw [hcol, Bool.not_true, Bool.and_false]
  · rw [Bool.not_eq_true] at hrow
    rw [hrow, Bool.not_false, Bool.true_and]

/-- A round removes all starved rows at once. -/
theorem removal_withoutStarved {entries : List (Entry α)}
    (h : starved (.whole minimum) entries ≠ []) :
    Removal minimum entries (withoutStarved (.whole minimum) entries) := by
  refine ⟨(starved (.whole minimum) entries).map Entry.row, by simpa using h, fun _ => id, ?_⟩
  have htouched : touched ((starved (.whole minimum) entries).map Entry.row) entries =
      (starved (.whole minimum) entries).map Entry.col := by
    refine congrArg (List.map Entry.col) (List.filter_congr fun e he => ?_)
    -- whether an entry is starved depends on its row alone
    rw [Bool.eq_iff_iff, List.contains_iff_mem, List.mem_map]
    constructor
    · rintro ⟨g, hg, hrow⟩
      rw [← hrow]
      exact (List.mem_filter.mp hg).2
    · exact fun hfew => ⟨e, List.mem_filter.mpr ⟨he, hfew⟩, rfl⟩
  rw [withoutStarved_eq_outside, htouched]

/-! ## What removals leave -/

/-- The entries that are left are those in some columns, and these include every set of columns
that sustains the rows. -/
structure Outlasting (minimum : Int) (cols : Nat) (given left : List (Entry α))
    (columns : Finset Nat) : Prop where
  bounded : columns ⊆ Finset.range cols
  left_eq : left = inColumns columns given
  includes : ∀ {sustaining : Finset Nat}, sustaining ⊆ Finset.range cols →
    Sustains minimum given sustaining → sustaining ⊆ columns

namespace Outlasting

variable {cols : Nat} {given left : List (Entry α)} {columns : Finset Nat}

/-- Before any removal all columns are there. -/
theorem refl (h : ∀ e ∈ given, e.col < cols) :
    Outlasting minimum cols given given (Finset.range cols) where
  bounded := subset_rfl
  left_eq := (List.filter_eq_self.mpr fun e he =>
    decide_eq_true (Finset.mem_range.mpr (h e he))).symm
  includes := fun hbounded _ => hbounded

/-- **A removal takes no column of a sustaining set**: there a starved row would have an entry, but
not enough of them. -/
theorem step (h : Outlasting minimum cols given before columns)
    (hremoval : Removal minimum before after) :
    ∃ columns', Outlasting minimum cols given after columns' := by
  obtain ⟨rows, -, hstarved, rfl⟩ := hremoval
  refine ⟨columns.filter fun c => c ∉ touched rows before,
    (Finset.filter_subset _ _).trans h.bounded, ?_, fun {S} hbounded hS c hc => ?_⟩
  · rw [outside_touched]
    conv_lhs => rw [h.left_eq]
    unfold inColumns
    rw [List.filter_filter]
    refine List.filter_congr fun e _ => ?_
    rw [Bool.eq_iff_iff]
    simp [h.left_eq, inColumns, and_comm]
  · have hcolumns : S ⊆ columns := h.includes hbounded hS
    refine Finset.mem_filter.mpr ⟨hcolumns hc, fun htouched => ?_⟩
    obtain ⟨e, he, rfl⟩ := List.mem_map.mp htouched
    obtain ⟨hbefore, hrow⟩ := List.mem_filter.mp he
    obtain ⟨g, hg, hgrow⟩ := List.mem_map.mp (hstarved e.row (List.contains_iff_mem.mp hrow))
    have hfew : (rowCount before e.row : Int) < minimum := hgrow ▸ (mem_starved.mp hg).2
    have hgiven : e ∈ given := (mem_inColumns.mp (h.left_eq ▸ hbefore)).1
    rcases hS e.row with hnone | henough
    · exact rowCount_eq_zero.mp hnone e (mem_inColumns.mpr ⟨hgiven, hc⟩) rfl
    · have hmore := rowCount_inColumns_mono hcolumns given e.row
      rw [← h.left_eq] at hmore
      omega

/-- So do many removals, one after the other. -/
theorem run (h : Outlasting minimum cols given before columns)
    (hrun : ReflTransGen (Removal minimum) before after) :
    ∃ columns', Outlasting minimum cols given after columns' := by
  induction hrun with
  | refl => exact ⟨columns, h⟩
  | tail _ hremoval ih =>
    obtain ⟨_, ih⟩ := ih
    exact ih.step hremoval

/-- **Once no row is starved** the columns that are left sustain the rows, and no more do. -/
theorem isGreatest (h : Outlasting minimum cols given left columns)
    (hdone : starved (.whole minimum) left = []) :
    IsGreatest {S | S ⊆ Finset.range cols ∧ Sustains minimum given S} columns := by
  refine ⟨⟨h.bounded, fun row => ?_⟩, fun S hS => h.includes hS.1 hS.2⟩
  rw [← h.left_eq, or_iff_not_imp_left, rowCount_eq_zero]
  intro hsome
  push Not at hsome
  obtain ⟨e, he, rfl⟩ := hsome
  by_contra hfew
  have hmem : e ∈ starved (.whole minimum) left := mem_starved.mpr ⟨he, not_le.mp hfew⟩
  rw [hdone] at hmem
  exact List.not_mem_nil hmem

end Outlasting

/-! ## The rounds -/

section Rounds

variable (threshold : Number) (entries : List (Entry α))

theorem starved_pruneStarved : starved threshold (pruneStarved threshold entries) = [] := by
  induction entries using pruneStarved.induct threshold with
  | case1 entries h => rwa [pruneStarved, if_pos h]
  | case2 entries h ih => rwa [pruneStarved, if_neg h]

/-- Where no row is starved, nothing is removed. -/
theorem pruneStarved_eq_self {entries : List (Entry α)} (h : starved threshold entries = []) :
    pruneStarved threshold entries = entries := by
  rw [pruneStarved, if_pos h]

/-- There are at most as many rounds as entries. -/
theorem exists_rounds : ∃ rounds ≤ entries.length,
    (withoutStarved threshold)^[rounds] entries = pruneStarved threshold entries := by
  induction entries using pruneStarved.induct threshold with
  | case1 entries h => exact ⟨0, Nat.zero_le _, (pruneStarved_eq_self threshold h).symm⟩
  | case2 entries h ih =>
    obtain ⟨rounds, hle, hrounds⟩ := ih
    have hlt := length_withoutStarved_lt h
    have hround : pruneStarved threshold entries =
        pruneStarved threshold (withoutStarved threshold entries) := by
      rw [pruneStarved, if_neg h]
    exact ⟨rounds + 1, by omega, hrounds.trans hround.symm⟩

end Rounds

theorem removals_pruneStarved (minimum : Int) (entries : List (Entry α)) :
    ReflTransGen (Removal minimum) entries (pruneStarved (.whole minimum) entries) := by
  induction entries using pruneStarved.induct (.whole minimum) with
  | case1 entries h =>
    rw [pruneStarved_eq_self _ h]
  | case2 entries h ih =>
    rw [pruneStarved, if_neg h]
    exact ReflTransGen.head (removal_withoutStarved h) ih

namespace SparseMatrix

/-- **Removing starved rows** ends after at most as many rounds as there are entries, and leaves
those in the greatest set of columns that sustains the rows. So do all other orders in which starved
rows can be removed, and a second time there is nothing to remove. -/
theorem removeStarved_greatest {m : SparseMatrix α} (h : m.InBounds) (minimum : Int) :
    ∃ columns : Finset Nat,
      IsGreatest {S | S ⊆ Finset.range m.cols ∧ Sustains minimum m.entries S} columns ∧
      m.removeStarved (.whole minimum) = { m with entries := inColumns columns m.entries } ∧
      (∃ rounds ≤ m.entries.length, (withoutStarved (.whole minimum))^[rounds] m.entries =
        (m.removeStarved (.whole minimum)).entries) ∧
      (∀ left, ReflTransGen (Removal minimum) m.entries left →
        starved (.whole minimum) left = [] → left = (m.removeStarved (.whole minimum)).entries) ∧
      (m.removeStarved (.whole minimum)).removeStarved (.whole minimum) =
        m.removeStarved (.whole minimum) := by
  have hall : Outlasting minimum m.cols m.entries m.entries (Finset.range m.cols) :=
    .refl fun e he => (h e he).2
  have hdone := starved_pruneStarved (.whole minimum) m.entries
  obtain ⟨columns, hleft⟩ := hall.run (removals_pruneStarved minimum m.entries)
  refine ⟨columns, hleft.isGreatest hdone, ?_, exists_rounds (.whole minimum) m.entries,
    fun left hrun hstuck => ?_, ?_⟩
  · rw [removeStarved, hleft.left_eq]
  · obtain ⟨columns', hother⟩ := hall.run hrun
    obtain rfl := (hother.isGreatest hstuck).unique (hleft.isGreatest hdone)
    exact hother.left_eq.trans hleft.left_eq.symm
  · unfold removeStarved
    rw [pruneStarved_eq_self _ hdone]

/-- A row of one entry, a row that needs its column, and a row that needs neither of them and has
one of its entries twice. -/
def chained : SparseMatrix Rat :=
  ⟨3, 4, [⟨2, 3, 1⟩, ⟨0, 0, 1⟩, ⟨1, 0, 1⟩, ⟨1, 1, 1⟩, ⟨2, 1, 1⟩, ⟨2, 3, 1⟩]⟩

/-- Two rounds are needed, and the third row lives on its repeated entry. -/
theorem removeStarved_greatest_chained : chained.InBounds ∧
    ∃ columns, IsGreatest {S | S ⊆ Finset.range 4 ∧ Sustains 2 chained.entries S} columns ∧
      0 ∉ columns ∧ 1 ∉ columns ∧ 3 ∈ columns ∧
      (chained.removeStarved (.whole 2)).entries = [⟨2, 3, 1⟩, ⟨2, 3, 1⟩] := by
  have hbounds : chained.InBounds := by decide
  obtain ⟨columns, hgreatest, hleft, -⟩ := removeStarved_greatest hbounds 2
  have hentries : (chained.removeStarved (.whole 2)).entries = [⟨2, 3, 1⟩, ⟨2, 3, 1⟩] := by
    decide +kernel
  have hin : inColumns columns chained.entries = [⟨2, 3, 1⟩, ⟨2, 3, 1⟩] := by
    rw [← hentries, hleft]
  have hgone : ∀ e ∈ chained.entries, e.col ≠ 3 → e.col ∉ columns := by
    intro e he hcol hmem
    have hlisted := hin ▸ mem_inColumns.mpr ⟨he, hmem⟩
    simp only [List.mem_cons, List.not_mem_nil, or_false, or_self] at hlisted
    exact hcol (congrArg Entry.col hlisted)
  have hstays : 3 ∈ columns :=
    (mem_inColumns.mp (hin ▸ List.mem_cons_self : ⟨2, 3, 1⟩ ∈ inColumns columns chained.entries)).2
  exact ⟨hbounds, columns, hgreatest, hgone ⟨0, 0, 1⟩ (by simp [chained]) (by decide),
    hgone ⟨1, 1, 1⟩ (by simp [chained]) (by decide), hstays, hentries⟩

end SparseMatrix

end Regrid

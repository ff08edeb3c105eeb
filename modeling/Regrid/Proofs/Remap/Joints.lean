import Mathlib.Data.List.Range
import Regrid.Proofs.Remap.Request
import Regrid.Proofs.Remap.Unbounded

/-!
# Where one target column ends and the next begins

Two neighbours share the source column in which the edge between them lies (`imax` of the one is
`imin` of the next), and cut it between them (`fmax` and `fmin`); or the edge lies between two
source columns, and neither is cut. That follows from where the seams lie, so it holds for all
offsets, also of target columns west of where the sweep begins, whose cuts are larger than a column.

* `Run.isChain_spans`: the spans of a run are joined.
* `columnSpans_joined`: so are the spans of the target columns, once around the circle, and none of
  them is empty.
-/

namespace Regrid

/-- The second span goes on where the first ends: in the same cell, which they cut between them, or
in the next one, with no cut. -/
def Span.Joins (w e : Span Rat) : Prop :=
  e.first = w.last ∧ e.cutFirst = 1 - w.cutLast ∨
    e.first = w.last + 1 ∧ e.cutFirst = 0 ∧ w.cutLast = 0

/-- The same span, some cells on. -/
def Span.shift (s : Span Rat) (m : Int) : Span Rat :=
  ⟨s.first + m, s.last + m, s.cutFirst, s.cutLast⟩

/-- **The spans on both sides of a seam are joined**, if all cells are one wide. -/
theorem Seam.At.joins {p : Rat} {s : Seam Rat} (h : s.At (fun k => k) p) (w e : Seam Rat) :
    (Span.between w s).Joins (Span.between s e) := by
  have hbeyond := h.beyond
  have hbefore := h.before
  unfold Span.Joins Span.between
  rcases h.joined with hr | ⟨hr, h0⟩
  · left
    rw [hr] at hbefore
    push_cast at hbeyond
    exact ⟨hr, by linarith⟩
  · right
    rw [hr, h0] at hbefore
    exact ⟨hr, h0, by linarith⟩

/-! ## Runs -/

theorem Span.between_shift (w e : Seam Rat) (m : Int) :
    (Span.between w e).shift m = Span.between (w.shift m) (e.shift m) :=
  rfl

namespace Run

variable {p : Nat → Rat} {n : Nat} {seam : Nat → Seam Rat}

theorem isChain_spans (h : Run (fun k => k) p n seam) : (runSpans n seam).IsChain Span.Joins := by
  unfold runSpans
  rw [List.isChain_map, List.isChain_range]
  intro i hi
  exact (h.at_pos (i + 1) (by omega)).joins _ _

theorem first_le_last {x : Int → Rat} (h : Run x p n seam) {s : Span Rat}
    (hs : s ∈ runSpans n seam) : s.first ≤ s.last := by
  obtain ⟨i, hi, rfl⟩ := List.mem_map.mp hs
  exact h.ordered i (List.mem_range.mp hi)

end Run

/-! ## Columns -/

namespace Remap

variable {r : Remap Rat}

/-- **The spans of the target columns**: the free sweep around the circle ends, there is a span for
each target column, none of them is empty, and each goes on where the one before it ends; so does
the first, a turn later, where the last ends. -/
theorem columnSpans_joined (hm : 0 < r.source.columns) (hn : 0 < r.target.columns) :
    r.freeColumnSeams = Part.some r.columnSeams ∧
    r.columnSpans.length = r.target.columns ∧
    (∀ s ∈ r.columnSpans, s.first ≤ s.last) ∧
    r.columnSpans.IsChain Span.Joins ∧
    ∀ w ∈ r.columnSpans.getLast?, ∀ e ∈ r.columnSpans.head?,
      w.Joins (e.shift r.source.columns) := by
  have hrun := columnRun (r := r) hm hn
  have hspans := columnSpans_eq (r := r) hn
  refine ⟨freeColumnSeams_eq hn, length_columnSpans r, fun s hs => ?_, ?_, fun w hw e he => ?_⟩
  · exact hrun.first_le_last (hspans ▸ hs)
  · rw [hspans]
    exact hrun.isChain_spans
  · rw [hspans, runSpans, getLast?_map_range hn] at hw
    rw [hspans, runSpans, head?_map_range hn] at he
    obtain rfl := Option.some.inj hw
    obtain rfl := Option.some.inj he
    -- the seam behind the last column is the first one, a turn later
    rw [Nat.sub_add_cancel hn, Span.between_shift, ← columnSeam_last hn]
    exact (hrun.at_pos r.target.columns le_rfl).joins _ _

/-- A single target column, which goes around the whole circle and begins west of where the sweep
does. -/
theorem columnSpans_joined_single :
    let r : Remap Rat := ⟨⟨3, 5/2, #[-1, 1]⟩, ⟨1, -7/3, #[-1, 1]⟩⟩
    0 < r.source.columns ∧ 0 < r.target.columns ∧ r.freeColumnSeams = Part.some r.columnSeams ∧
    ∃ s, r.columnSpans = [s] ∧ s.first ≤ s.last ∧ s.Joins (s.shift 3) ∧
      (s.first, s.last, s.cutFirst, s.cutLast) = (0, 3, -13/2, 15/2) := by
  intro r
  obtain ⟨hends, hlength, hordered, -, hturn⟩ :=
    columnSpans_joined (r := r) (by decide) (by decide)
  obtain ⟨s, hs⟩ := List.length_eq_one_iff.mp hlength
  have hparts : r.columnSpans.map (fun s => (s.first, s.last, s.cutFirst, s.cutLast)) =
      [(0, 3, -13/2, 15/2)] := by decide +kernel
  rw [hs] at hordered hturn hparts
  exact ⟨by decide, by decide, hends, s, hs, hordered s List.mem_cons_self, hturn s rfl s rfl,
    List.head_eq_of_cons_eq hparts⟩

end Remap

end Regrid

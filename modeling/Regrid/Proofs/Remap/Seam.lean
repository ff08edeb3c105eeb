import Mathlib.Algebra.Order.Interval.Finset.SuccPred
import Mathlib.Data.Int.Interval
import Mathlib.Data.Int.SuccPred
import Regrid.Proofs.LatLon.Intersection
import Regrid.Remap.Span

/-!
# Seams on a ruler

A ruler `x` puts the source cells on a line: cell `c` reaches from `x c` to `x (c + 1)`. A seam lies
at a position of the ruler (`Seam.At`), and `passed` is what it leaves of a cell before it.

* `part_between`: what a span counts of a cell is what the seam at its end has passed of it, less
  what the seam at its beginning has. So the spans of a run of seams telescope: over the cells of
  one span (`sum_part_between`), and over the spans for one cell.
* `part_between_eq_common`: between seams that lie inside the cells they cut, the part of a cell is
  the length that the cell and the stretch between the seams have in common.
-/

namespace Regrid

/-- The seam lies at position `p` of the ruler. -/
structure Seam.At (x : Int → Rat) (p : Rat) (s : Seam Rat) : Prop where
  joined : s.right = s.left ∨ s.right = s.left + 1 ∧ s.before = 0
  beyond : x (s.left + 1) - s.beyond = p
  before : x s.right + s.before = p

/-- The part before the seam of a source cell of which the whole counts `whole`. -/
def Seam.passed (s : Seam Rat) (cell : Int) (whole : Rat) : Rat :=
  if cell < s.right then whole else if cell = s.right then s.before else 0

/-- What a source cell counts for the span: nothing if it is none of its cells. -/
def Span.part (s : Span Rat) (cell : Int) (whole : Rat) : Rat :=
  if s.first ≤ cell ∧ cell ≤ s.last then s.share cell whole else 0

/-! ## The cells of a span -/

theorem Span.mem_cells {s : Span Rat} {c : Int} : c ∈ s.cells ↔ s.first ≤ c ∧ c ≤ s.last := by
  unfold Span.cells
  simp only [List.mem_map, List.mem_range]
  constructor
  · rintro ⟨k, hk, rfl⟩
    omega
  · intro h
    exact ⟨(c - s.first).toNat, by omega, by omega⟩

theorem Span.part_of_mem {s : Span Rat} {c : Int} (h : s.first ≤ c ∧ c ≤ s.last) (whole : Rat) :
    s.part c whole = s.share c whole :=
  if_pos h

theorem Span.part_of_not_mem {s : Span Rat} {c : Int} (h : ¬ (s.first ≤ c ∧ c ≤ s.last))
    (whole : Rat) : s.part c whole = 0 :=
  if_neg h

/-- A sum over the cells of a span. -/
theorem Span.sum_cells (s : Span Rat) (f : Int → Rat) :
    (s.cells.map f).sum = ∑ c ∈ Finset.Icc s.first s.last, f c := by
  have hinj : Function.Injective fun k : Nat => s.first + (k : Int) := fun a b h => by
    simp only [add_right_inj] at h
    exact_mod_cast h
  have hnd : s.cells.Nodup := List.nodup_range.map hinj
  rw [← List.sum_toFinset f hnd]
  refine Finset.sum_congr ?_ fun _ _ => rfl
  ext c
  rw [List.mem_toFinset, Span.mem_cells, Finset.mem_Icc]

/-! ## Passing a seam -/

section Passed

variable {x : Int → Rat} {p q : Rat} {s w e : Seam Rat}

theorem Seam.At.left_le_right (h : s.At x p) : s.left ≤ s.right := by
  rcases h.joined with h | ⟨h, -⟩ <;> omega

theorem Seam.At.right_le (h : s.At x p) : s.right ≤ s.left + 1 := by
  rcases h.joined with h | ⟨h, -⟩ <;> omega

/-- What lies of the left cell before a seam and behind it makes up the cell. -/
theorem Seam.At.passed_left (h : s.At x p) :
    s.passed s.left (x (s.left + 1) - x s.left) = x (s.left + 1) - x s.left - s.beyond := by
  have hb := h.beyond
  have ha := h.before
  unfold Seam.passed
  rcases h.joined with hr | ⟨hr, h0⟩
  · rw [hr] at ha
    rw [if_neg (by omega), if_pos hr.symm]
    linarith
  · rw [hr] at ha
    rw [if_pos (by omega)]
    linarith

/-- **The part of a cell between two seams** is what the second has passed of it and the first has
not. -/
theorem part_between (he : e.At x q) (h : w.right ≤ e.left) (c : Int) :
    (Span.between w e).part c (x (c + 1) - x c) =
      e.passed c (x (c + 1) - x c) - w.passed c (x (c + 1) - x c) := by
  have hle := he.left_le_right
  have hre := he.right_le
  unfold Span.part Span.share Span.between
  simp only
  rcases lt_trichotomy c w.right with hc | rfl | hc
  · rw [if_neg (by omega), Seam.passed, Seam.passed, if_pos (by omega), if_pos hc, sub_self]
  · have hwp : w.passed w.right (x (w.right + 1) - x w.right) = w.before := by
      rw [Seam.passed, if_neg (by omega), if_pos rfl]
    rw [if_pos (by omega), if_pos rfl, hwp]
    rcases h.lt_or_eq with hlt | heq
    · rw [if_neg (by omega), Seam.passed, if_pos (by omega)]
    · rw [if_pos heq, heq, he.passed_left]
      ring
  · rw [show w.passed c (x (c + 1) - x c) = 0 by
      rw [Seam.passed, if_neg (by omega), if_neg (by omega)], sub_zero]
    rcases lt_trichotomy c e.left with hlt | rfl | hgt
    · rw [if_pos (by omega), if_neg (by omega), if_neg (by omega), Seam.passed, if_pos (by omega)]
    · rw [if_pos (by omega), if_pos rfl, if_neg (by omega), he.passed_left]
    · rw [if_neg (by omega), Seam.passed, if_neg (by omega)]
      -- only the cell behind coinciding edges is left, and nothing of it lies before the seam
      rcases he.joined with hr | ⟨hr, h0⟩
      · rw [if_neg (by omega)]
      · rw [h0, ite_self]

/-- The same seam, some cells on. -/
def Seam.shift (s : Seam Rat) (m : Int) : Seam Rat := ⟨s.left + m, s.beyond, s.right + m, s.before⟩

theorem Seam.passed_shift_sub (s : Seam Rat) {m : Int} (hm : 0 < m) (k : Int) :
    (s.shift m).passed k 1 - s.passed k 1 =
      (if k ∈ Finset.Ico s.right (s.right + m) then 1 else 0)
        + (if k = s.right + m then s.before else 0) - (if k = s.right then s.before else 0) := by
  unfold Seam.passed Seam.shift
  simp only [Finset.mem_Ico]
  rcases lt_trichotomy k s.right with h | rfl | h
  · rw [if_pos (by omega), if_pos h, if_neg (by omega), if_neg (by omega), if_neg (by omega)]
    ring
  · rw [if_pos (by omega), if_neg (by omega), if_pos rfl, if_pos (by omega), if_neg (by omega)]
    ring
  · rw [if_neg (c := k < s.right) (by omega), if_neg (c := k = s.right) (by omega)]
    rcases lt_trichotomy k (s.right + m) with h' | rfl | h'
    · rw [if_pos h', if_pos (by omega), if_neg (by omega)]
      ring
    · rw [if_neg (by omega), if_pos rfl, if_neg (by omega)]
      ring
    · rw [if_neg (by omega), if_neg (by omega), if_neg (by omega)]
      ring

/-- The widths of consecutive cells add up. -/
theorem sum_widths (x : Int → Rat) {a b : Int} (h : a ≤ b) :
    ∑ c ∈ Finset.Icc a b, (x (c + 1) - x c) = x (b + 1) - x a := by
  induction b, h using Int.leInduction with
  | base => rw [Finset.Icc_self, Finset.sum_singleton]
  | succ b h ih =>
    rw [← Finset.insert_Icc_right_eq_Icc_add_one (by omega), Finset.sum_insert (by simp), ih]
    ring

/-- **A span is as long as the way between its seams.** -/
theorem sum_part_between (hw : w.At x p) (he : e.At x q) (h : w.right ≤ e.left) :
    ∑ c ∈ Finset.Icc w.right e.left, (Span.between w e).part c (x (c + 1) - x c) = q - p := by
  have hcut : ∀ c ∈ Finset.Icc w.right e.left,
      (Span.between w e).part c (x (c + 1) - x c) =
        x (c + 1) - x c - (if c = w.right then w.before else 0)
          - (if c = e.left then e.beyond else 0) := by
    intro c hc
    rw [Finset.mem_Icc] at hc
    unfold Span.part Span.share Span.between
    rw [if_pos hc]
    split_ifs <;> ring
  have hb := hw.before
  have he' := he.beyond
  rw [Finset.sum_congr rfl hcut, Finset.sum_sub_distrib, Finset.sum_sub_distrib, sum_widths x h,
    Finset.sum_ite_eq', Finset.sum_ite_eq', if_pos (Finset.left_mem_Icc.mpr h),
    if_pos (Finset.right_mem_Icc.mpr h)]
  linarith

/-! ## Seams inside their cells -/

/-- Nothing is cut off beyond the ends of a cell. -/
def Seam.Inside (s : Seam Rat) : Prop := 0 ≤ s.before ∧ 0 ≤ s.beyond

/-- A seam inside its cells has passed of a cell what lies before its position. -/
theorem Seam.At.passed_eq (hx : Monotone x) (h : s.At x p) (hin : s.Inside) (c : Int) :
    s.passed c (x (c + 1) - x c) = max 0 (min p (x (c + 1)) - x c) := by
  have hb := h.before
  have he := h.beyond
  obtain ⟨hb0, he0⟩ := hin
  have hc : x c ≤ x (c + 1) := hx (by omega)
  unfold Seam.passed
  rcases lt_trichotomy c s.right with hlt | rfl | hgt
  · have : x (c + 1) ≤ x s.right := hx (by omega)
    rw [if_pos hlt, min_eq_right (by linarith), max_eq_right (by linarith)]
  · have hp : p ≤ x (s.right + 1) := by
      have : x (s.left + 1) ≤ x (s.right + 1) := hx (by have := h.left_le_right; omega)
      linarith
    rw [if_neg (by omega), if_pos rfl, min_eq_left hp, max_eq_right (by linarith)]
    linarith
  · have hp : p ≤ x c := by
      have : x (s.left + 1) ≤ x c := hx (by have := h.left_le_right; omega)
      linarith
    rw [if_neg (by omega), if_neg (by omega), max_eq_left]
    linarith [min_le_left p (x (c + 1))]

/-- **The part of a cell is what it has in common with the stretch between the seams.** -/
theorem part_between_eq_common (hx : Monotone x) (hw : w.At x p) (he : e.At x q)
    (h : w.right ≤ e.left) (hpq : p ≤ q) (hwi : w.Inside) (hei : e.Inside) (c : Int) :
    (Span.between w e).part c (x (c + 1) - x c) = common p q (x c) (x (c + 1)) := by
  rw [part_between he h, he.passed_eq hx hei, hw.passed_eq hx hwi,
    common_eq_sub hpq (hx (by omega))]

end Passed

end Regrid

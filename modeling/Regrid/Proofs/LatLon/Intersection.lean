import Mathlib.Algebra.Order.BigOperators.Group.Finset
import Mathlib.Algebra.Order.Field.Basic
import Mathlib.Data.Int.Interval
import Regrid.Proofs.LatLon.Partition

/-!
# Common parts of cells

A cell is the product of an arc of longitude, which is taken modulo a turn, and a band of latitudes.
`Lattice.commonArea` is the area that a cell has in common with a cell of another lattice. Arcs are
measured in turns east of the date line, bands in sine of latitude.

* `common_turn_eq_zero`: the turns over which `arcCommon` sums are all that matter.
* `commonArea_eq_zero_iff`: the common area is zero just if no point lies inside both cells.
-/

namespace Regrid

/-! ## Intervals -/

/-- The length that the intervals from `a` to `b` and from `c` to `d` have in common. -/
def common (a b c d : Rat) : Rat := max 0 (min b d - max a c)

section Common

variable {a b c d : Rat}

theorem common_nonneg (a b c d : Rat) : 0 ≤ common a b c d := le_max_left _ _

/-- What lies of an interval before the end of another and not before its beginning. -/
theorem common_eq_sub (hab : a ≤ b) (hcd : c ≤ d) :
    common a b c d = max 0 (min b d - c) - max 0 (min a d - c) := by
  unfold common
  rcases le_total a c with hac | hca
  · rw [max_eq_right hac, max_eq_left (a := (0 : Rat)) (b := min a d - c)
      (by linarith [min_le_left a d]), sub_zero]
  · have hbc : 0 ≤ min b d - c := sub_nonneg.mpr (le_min (hca.trans hab) hcd)
    have hac : 0 ≤ min a d - c := sub_nonneg.mpr (le_min hca hcd)
    rw [max_eq_left hca, max_eq_right hbc, max_eq_right hac]
    rcases le_total a d with had | hda
    · rw [min_eq_left had, max_eq_right (sub_nonneg.mpr (le_min hab had))]
      ring
    · rw [min_eq_right hda, min_eq_right (hda.trans hab), max_eq_left (by linarith), sub_self]

/-- Two intervals have a length in common if a point lies inside both. -/
theorem common_pos_iff : 0 < common a b c d ↔ ∃ x, (a < x ∧ x < b) ∧ c < x ∧ x < d := by
  unfold common
  rw [lt_max_iff, or_iff_right (lt_irrefl _), sub_pos]
  constructor
  · intro h
    obtain ⟨x, hlo, hhi⟩ := exists_between h
    rw [max_lt_iff] at hlo
    rw [lt_min_iff] at hhi
    exact ⟨x, ⟨hlo.1, hhi.1⟩, hlo.2, hhi.2⟩
  · rintro ⟨x, ⟨hax, hxb⟩, hcx, hxd⟩
    exact (max_lt hax hcx).trans (lt_min hxb hxd)

theorem common_eq_zero_of_le (h : d ≤ a ∨ b ≤ c) : common a b c d = 0 := by
  refine max_eq_left (sub_nonpos.mpr ?_)
  rcases h with h | h
  · exact (min_le_right b d).trans (h.trans (le_max_left a c))
  · exact (min_le_left b d).trans (h.trans (le_max_right a c))

/-- Stretching and moving a line. -/
theorem common_affine {m : Rat} (hm : 0 ≤ m) (k a b c d : Rat) :
    common (m * a + k) (m * b + k) (m * c + k) (m * d + k) = m * common a b c d := by
  unfold common
  rw [min_add_add_right, max_add_add_right, add_sub_add_right_eq_sub, ← mul_max_of_nonneg _ _ hm,
    ← mul_min_of_nonneg _ _ hm, ← mul_sub, mul_max_of_nonneg _ _ hm, mul_zero]

end Common

/-! ## Arcs -/

/-- The length that the arcs from `a` to `b` and from `c` to `d` have in common on a circle of
circumference one: what the first has in common with the second after any number of turns. -/
noncomputable def arcCommon (a b c d : Rat) : Rat :=
  ∑ t ∈ Finset.Icc (Rat.floor (a - d)) (Rat.ceil (b - c)), common a b (c + t) (d + t)

section Arcs

variable {a b c d : Rat}

/-- After other numbers of turns the arcs lie apart. -/
theorem common_turn_eq_zero {t : Int}
    (h : t ∉ Finset.Icc (Rat.floor (a - d)) (Rat.ceil (b - c))) :
    common a b (c + t) (d + t) = 0 := by
  rw [Finset.mem_Icc, not_and_or, not_le, not_le] at h
  refine common_eq_zero_of_le (h.imp (fun h => ?_) fun h => ?_)
  · have hfloor := Rat.floor_le (a - d)
    have : (t : Rat) < Rat.floor (a - d) := Int.cast_lt.mpr h
    linarith
  · have hceil := Rat.le_ceil (x := b - c)
    have : (Rat.ceil (b - c) : Rat) < t := Int.cast_lt.mpr h
    linarith

theorem arcCommon_nonneg (a b c d : Rat) : 0 ≤ arcCommon a b c d :=
  Finset.sum_nonneg fun _ _ => common_nonneg _ _ _ _

/-- Two arcs have a length in common if some point lies inside both, after some turns. -/
theorem arcCommon_pos_iff : 0 < arcCommon a b c d ↔
    ∃ x : Rat, (∃ t : Int, a < x + t ∧ x + t < b) ∧ ∃ t : Int, c < x + t ∧ x + t < d := by
  unfold arcCommon
  rw [Finset.sum_pos_iff_of_nonneg fun _ _ => common_nonneg _ _ _ _]
  constructor
  · rintro ⟨t, -, ht⟩
    obtain ⟨x, hab, hc, hd⟩ := common_pos_iff.mp ht
    refine ⟨x, ⟨0, by simpa using hab⟩, -t, ?_, ?_⟩ <;> push_cast <;> linarith
  · rintro ⟨x, ⟨s, ha, hb⟩, t, hc, hd⟩
    have hpos : 0 < common a b (c + (s - t : Int)) (d + (s - t : Int)) := by
      refine common_pos_iff.mpr ⟨x + s, ⟨ha, hb⟩, ?_, ?_⟩ <;> push_cast <;> linarith
    exact ⟨s - t, by_contra fun h => hpos.ne' (common_turn_eq_zero h), hpos⟩

end Arcs

/-! ## Cells -/

namespace Lattice

/-- The meridian west of column `i`, in turns east of the date line. -/
def meridian (l : Lattice Rat) (i : Nat) : Rat := (l.offset + i) / l.columns

/-- The points inside a cell, by longitude in turns and sine of latitude. -/
def interior (l : Lattice Rat) (cell : Nat) : Set (Rat × Rat) :=
  {p | (∃ t : Int, l.meridian (cell % l.columns) < p.1 + t ∧
      p.1 + t < l.meridian (cell % l.columns + 1)) ∧
    l.edge (cell / l.columns) < p.2 ∧ p.2 < l.edge (cell / l.columns + 1)}

/-- The area that a cell and a cell of another lattice have in common. -/
noncomputable def commonArea (l other : Lattice Rat) (turn radius : Rat) (cell cell' : Nat) : Rat :=
  turn * arcCommon (l.meridian (cell % l.columns)) (l.meridian (cell % l.columns + 1))
      (other.meridian (cell' % other.columns)) (other.meridian (cell' % other.columns + 1))
    * common (l.edge (cell / l.columns)) (l.edge (cell / l.columns + 1))
      (other.edge (cell' / other.columns)) (other.edge (cell' / other.columns + 1))
    * (radius * radius)

/-- **Cells have an area in common just if a point lies inside both.** -/
theorem commonArea_eq_zero_iff {l other : Lattice Rat} {turn radius : Rat} (hturn : turn ≠ 0)
    (hradius : radius ≠ 0) (cell cell' : Nat) :
    l.commonArea other turn radius cell cell' = 0 ↔
      Disjoint (l.interior cell) (other.interior cell') := by
  unfold commonArea
  rw [mul_eq_zero, mul_eq_zero, mul_eq_zero, or_iff_right hturn, mul_self_eq_zero,
    or_iff_left hradius, ← not_iff_not, not_or, ← Ne, ← Ne, ← (arcCommon_nonneg _ _ _ _).lt_iff_ne',
    ← (common_nonneg _ _ _ _).lt_iff_ne', arcCommon_pos_iff, common_pos_iff,
    Set.not_disjoint_iff]
  constructor
  · rintro ⟨⟨x, hx, hx'⟩, y, hy, hy'⟩
    exact ⟨(x, y), ⟨hx, hy⟩, hx', hy'⟩
  · rintro ⟨⟨x, y⟩, ⟨hx, hy⟩, hx', hy'⟩
    exact ⟨⟨x, hx, hx'⟩, y, hy, hy'⟩

end Lattice

end Regrid

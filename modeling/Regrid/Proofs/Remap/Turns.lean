import Regrid.Proofs.LatLon.Arcs
import Regrid.Proofs.Remap.Intersection

/-!
# Whole turns

A lattice whose first column begins some turns further east has the same cells. The sweep around the
circle sees only how many turns the target lies east of the source:

* `operator_turned`: turning both lattices by the same number of turns changes no entry of an
  operator, whatever the offsets.
* `dense_turned`: turning them by different numbers changes no element, as long as the sweep begins
  west of the target before and after.
* `columnTotal_west`: target columns west of where the sweep begins take all from source column `0`,
  wherever they lie. So a target that is turned too far west gets its values from the wrong columns
  (`turned_west_misplaced`), although rows and columns of the operator sum up as they should.
-/

namespace Regrid

/-! ## Turning a lattice -/

namespace Lattice

/-- The lattice with its first column some turns further east. -/
def turned (l : Lattice Rat) (k : Int) : Lattice Rat :=
  { l with offset := l.offset + k * l.columns }

variable {l : Lattice Rat}

theorem Partition.turned (h : l.Partition) (k : Int) : (l.turned k).Partition :=
  ⟨h.columns_pos, h.rows_pos, h.south, h.north, h.increasing⟩

theorem meridian_turned (hn : 0 < l.columns) (k : Int) (i : Nat) :
    (l.turned k).meridian i = l.meridian i + k := by
  have hne : (l.columns : Rat) ≠ 0 := by exact_mod_cast hn.ne'
  unfold meridian turned
  simp only
  field_simp
  ring

theorem bandAt_turned (l : Lattice Rat) (k : Int) (sine : Rat) : ∀ n j,
    (l.turned k).bandAt sine n j = l.bandAt sine n j
  | 0, _ => rfl
  | n + 1, j => by
    rw [bandAt, bandAt, bandAt_turned l k sine n (j + 1)]
    rfl

/-- The bands do not know how far a lattice is turned. -/
theorem bandSweep_turned (l : Lattice Rat) (k : Int) : ∀ (ps : List Rat) (j : Nat),
    (l.turned k).bandSweep j ps = l.bandSweep j ps
  | [], _ => rfl
  | p :: ps, j => by
    have hseam : (l.turned k).bandSeam p j = l.bandSeam p j := by
      unfold bandSeam
      rw [bandAt_turned]
      rfl
    rw [bandSweep, bandSweep, hseam]
    simp only [bandSweep_turned l k ps]

end Lattice

/-! ## Moving the sweep -/

namespace ColumnCursor

/-- The cursor at another position. -/
def moved (c : ColumnCursor Rat) (d : Rat) : ColumnCursor Rat := ⟨c.cell, c.edge + d⟩

variable {width position : Rat}

theorem advance_moved (d : Rat) (n : Nat) (c : ColumnCursor Rat) :
    (c.moved d).advance width (position + d) n = (c.advance width position n).moved d := by
  induction n generalizing c with
  | zero => rfl
  | succ n ih =>
    have hlt : (c.moved d).edge < position + d ↔ c.edge < position := add_lt_add_iff_right d
    have hnext : (⟨c.cell + 1, (c.moved d).edge + width⟩ : ColumnCursor Rat) =
        ColumnCursor.moved ⟨c.cell + 1, c.edge + width⟩ d :=
      congrArg (ColumnCursor.mk (c.cell + 1)) (add_right_comm c.edge d width)
    unfold advance
    by_cases h : c.edge < position
    · rw [if_pos h, if_pos (hlt.mpr h), ← ih, ← hnext]
      rfl
    · rw [if_neg h, if_neg (mt hlt.mp h)]

theorem seam_moved (d : Rat) (c : ColumnCursor Rat) :
    (c.moved d).seam width (position + d) =
      ((c.seam width position).1, (c.seam width position).2.moved d) := by
  have hsteps : (c.moved d).stepsTo width (position + d) = c.stepsTo width position := by
    unfold stepsTo moved
    rw [add_sub_add_right_eq_sub]
  unfold seam
  simp only [hsteps, advance_moved]
  generalize c.advance width position (c.stepsTo width position) = e
  have hedge : ((e.moved d).edge == position + d) = (e.edge == position) := by
    rw [Bool.eq_iff_iff, beq_iff_eq, beq_iff_eq]
    exact add_left_inj d
  rw [hedge]
  by_cases h : (e.edge == position) = true
  · rw [if_pos h, if_pos h]
    simp only [moved, add_right_comm]
  · rw [if_neg h, if_neg h]
    simp only [moved, add_sub_add_right_eq_sub]

/-- **A sweep sees distances only.** -/
theorem sweep_moved (d : Rat) : ∀ (ps : List Rat) (c : ColumnCursor Rat),
    (c.moved d).sweep width (ps.map (· + d)) = c.sweep width ps
  | [], _ => rfl
  | p :: ps, c => by
    rw [List.map_cons, sweep, seam_moved, sweep]
    simp only
    rw [sweep_moved d ps]

end ColumnCursor

/-! ## Turning both lattices -/

namespace Remap

/-- The remap between lattices turned by `k` and by `l` turns. -/
def turned (r : Remap Rat) (k l : Int) : Remap Rat := ⟨r.source.turned k, r.target.turned l⟩

theorem columnSeams_turned (r : Remap Rat) (k : Int) :
    (r.turned k k).columnSeams = r.columnSeams := by
  set d : Rat := k * r.source.columns * r.target.columns with hd
  have hstart : (r.turned k k).startCursor = r.startCursor.moved d := by
    unfold startCursor ColumnCursor.moved turned Lattice.turned
    simp only [ColumnCursor.mk.injEq, true_and, hd]
    ring
  have hedges : (r.turned k k).columnEdges = r.columnEdges.map (fun p => p + d) := by
    unfold columnEdges turned Lattice.turned
    rw [List.map_map]
    refine List.map_congr_left fun i _ => ?_
    simp only [Function.comp, hd]
    ring
  calc (r.turned k k).columnSeams
      = (r.startCursor.moved d).sweep (r.target.columns : Rat)
          (r.columnEdges.map (fun p => p + d)) := by rw [← hstart, ← hedges]; rfl
    _ = r.columnSeams := ColumnCursor.sweep_moved d r.columnEdges r.startCursor

/-- **Turning both lattices alike** changes nothing, not even the order of the entries. -/
theorem operator_turned (r : Remap Rat) (k : Int) (weights : Array Rat)
    (rows : Option (Int × Int)) :
    (r.turned k k).operator weights rows = r.operator weights rows := by
  have hcolumns : (r.turned k k).columnOverlaps = r.columnOverlaps := by
    unfold columnOverlaps columnSpans
    rw [columnSeams_turned]
    rfl
  have hseams : (r.turned k k).bandSeams = r.bandSeams := by
    unfold bandSeams
    simp only [turned, Lattice.bandSweep_turned]
    rfl
  have hbands : (r.turned k k).bandOverlaps = r.bandOverlaps := by
    unfold bandOverlaps bandSpans
    rw [hseams]
    rfl
  have hentry : (r.turned k k).entryOf weights = r.entryOf weights := rfl
  unfold operator overlaps cellOverlaps
  rw [hcolumns, hbands, hentry]
  rfl

/-! ## Turning one lattice further -/

section

variable {r : Remap Rat}

variable (hs : r.source.Partition) (ht : r.target.Partition)
include hs ht

/-- **Turning by different numbers of turns** changes no element, if the sweep begins west of the
target before and after. -/
theorem dense_turned {k l : Int} (hstart : r.StartsWest) (hstart' : (r.turned k l).StartsWest)
    (weights : Array Rat) {b a : Nat} (hb : b < r.target.size) (ha : a < r.source.size) :
    ((r.turned k l).operator weights none).dense b a = (r.operator weights none).dense b a := by
  obtain ⟨j, i, hj, hi, rfl⟩ := Lattice.exists_cell hb
  obtain ⟨k', l', hk, hl, rfl⟩ := Lattice.exists_cell ha
  have harc : arcCommon ((r.target.turned l).meridian i) ((r.target.turned l).meridian (i + 1))
      ((r.source.turned k).meridian l') ((r.source.turned k).meridian (l' + 1)) =
        arcCommon (r.target.meridian i) (r.target.meridian (i + 1)) (r.source.meridian l')
          (r.source.meridian (l' + 1)) := by
    rw [Lattice.meridian_turned ht.columns_pos, Lattice.meridian_turned ht.columns_pos,
      Lattice.meridian_turned hs.columns_pos, Lattice.meridian_turned hs.columns_pos,
      arcCommon_turn_add, arcCommon_add_turn]
  have hbefore := dense_eq_common hs ht hstart weights hj hi hk hl
  rw [← harc] at hbefore
  exact (dense_eq_common (hs.turned k) (ht.turned l) hstart' weights hj hi hk hl).trans
    hbefore.symm

omit hs in
/-- **West of its start the sweep stands still**: a target column there takes all from source column
`0`. The last column is none of these, as it ends a turn east of where the first begins. -/
theorem columnTotal_west {i a : Nat} (hi : i + 1 < r.target.columns)
    (hwest : r.columnPlace (i + 1) ≤ 0) : r.columnTotal i a =
      if a = 0 then (r.source.columns / r.target.columns : Rat) else 0 := by
  have hn := ht.columns_pos
  have hstill : ∀ t, t < r.target.columns → r.columnPlace t ≤ 0 →
      (r.columnSeam t).left = 0 ∧ (r.columnSeam t).right = 0 := by
    intro t htn hplace
    obtain ⟨hat, -⟩ := columnSeam_at hn htn
    have hleft : (0 : Int) ≤ (r.columnSeam t).left :=
      ColumnCursor.cell_le_left (by exact_mod_cast hn) r.columnEdges r.start_on _
        (columnSeam_mem hn htn)
    have hright : (r.columnSeam t).right ≤ 0 := by
      rcases columnSeam_before hn htn with h | h
      · have hb := hat.before
        exact_mod_cast (by linarith : ((r.columnSeam t).right : Rat) ≤ 0)
      · exact h
    have := hat.left_le_right
    omega
  obtain ⟨-, hr⟩ := hstill i (by omega) ((r.columnPlace_mono i.le_succ).trans hwest)
  obtain ⟨hl, -⟩ := hstill (i + 1) hi hwest
  have hb := (columnSeam_at hn (show i < r.target.columns by omega)).1.before
  have he := (columnSeam_at hn hi).1.beyond
  have hwidth := columnPlace_sub (r := r) (i := i) (j := i + 1) hn
  have hfold : r.foldColumn 0 = 0 := by
    unfold foldColumn
    rw [Int.zero_emod, Int.toNat_zero]
  rw [hr] at hb
  rw [hl] at he
  rw [columnTotal, columnOverlaps_eq, columnSpans_eq hn, total_spanOverlaps (by omega), hr, hl,
    Finset.Icc_self, Finset.sum_singleton, hfold]
  by_cases ha : a = 0
  · rw [if_pos ha.symm, if_pos ha]
    unfold Span.part Span.share Span.between
    simp only [hr, hl, le_refl, and_self, if_true]
    push_cast at hb he hwidth
    linarith
  · rw [if_neg (Ne.symm ha), if_neg ha]

/-- **Whole turns change nothing**: lattices turned by the same number of turns have the same
operator, and those turned by different numbers do, as long as the sweep begins west of the target
columns before and after. -/
theorem build_turned {k l : Int} (h : k = l ∨ r.StartsWest ∧ (r.turned k l).StartsWest) :
    ∃ u v, r.build {} = .ok (u, []) ∧ (r.turned k l).build {} = .ok (v, []) ∧
      v.rows = u.rows ∧ v.cols = u.cols ∧
      ∀ b, b < u.rows → ∀ a, a < u.cols → v.dense b a = u.dense b a := by
  refine ⟨_, _, build_default ht, build_default (ht.turned l), rfl, rfl,
    fun b hb a ha => ?_⟩
  rcases h with rfl | ⟨hstart, hstart'⟩
  · exact congrArg (fun m => m.dense b a) (r.operator_turned k r.unitWeights none)
  · exact dense_turned hs ht hstart hstart' r.unitWeights hb ha

omit hs ht in
/-- A target column across the date line, with the target a turn further east. -/
theorem build_turned_once :
    Lattice.Partition ⟨4, 0, #[-1, 1]⟩ ∧ Lattice.Partition ⟨2, 1 / 2, #[-1, 1]⟩ ∧
    ∃ v, (Remap.turned ⟨⟨4, 0, #[-1, 1]⟩, ⟨2, 1 / 2, #[-1, 1]⟩⟩ 0 1).build {} = .ok (v, []) ∧
      v.dense 1 0 = 1 / 2 ∧ v.dense 1 1 = 0 ∧ v.dense 1 3 = 1 / 2 := by
  have hs : Lattice.Partition ⟨4, 0, #[-1, 1]⟩ := by decide +kernel
  have ht : Lattice.Partition ⟨2, 1 / 2, #[-1, 1]⟩ := by decide +kernel
  obtain ⟨u, v, hu, hv, -, -, hdense⟩ := build_turned (r := ⟨_, _⟩) (k := 0) (l := 1) hs ht
    (.inr ⟨by decide +kernel, by decide +kernel⟩)
  obtain ⟨rfl, -⟩ := Prod.mk.inj (Except.ok.inj (hu.symm.trans (build_default ht)))
  refine ⟨hs, ht, v, hv, ?_, ?_, ?_⟩
  · exact (hdense 1 (by decide) 0 (by decide)).trans (by decide +kernel)
  · exact (hdense 1 (by decide) 1 (by decide)).trans (by decide +kernel)
  · exact (hdense 1 (by decide) 3 (by decide)).trans (by decide +kernel)

omit hs ht in
/-- **A target that is turned too far west** gets its values from the wrong columns: its first
column, which lies over the second column of the source, takes all from the first. -/
theorem turned_west_misplaced :
    Lattice.Partition ⟨2, 0, #[-1, 1]⟩ ∧ Lattice.Partition ⟨2, 1, #[-1, 1]⟩ ∧
    ∃ u v, Remap.build (α := Rat) ⟨⟨2, 0, #[-1, 1]⟩, ⟨2, 1, #[-1, 1]⟩⟩ {} = .ok (u, []) ∧
      (Remap.turned ⟨⟨2, 0, #[-1, 1]⟩, ⟨2, 1, #[-1, 1]⟩⟩ 0 (-2)).build {} = .ok (v, []) ∧
      u.dense 0 0 = 0 ∧ u.dense 0 1 = 1 ∧ v.dense 0 0 = 1 ∧ v.dense 0 1 = 0 := by
  have hs : Lattice.Partition ⟨2, 0, #[-1, 1]⟩ := by decide +kernel
  have ht : Lattice.Partition ⟨2, 1, #[-1, 1]⟩ := by decide +kernel
  refine ⟨hs, ht, _, _, build_default (r := ⟨_, _⟩) ht,
    build_default (ht.turned (-2)), ?_, ?_, ?_, ?_⟩ <;> decide +kernel

end

end Remap

end Regrid

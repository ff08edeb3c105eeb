import Regrid.Proofs.LatLon.Intersection
import Regrid.Proofs.Remap.Operator

/-!
# Operators as common areas

If no target column begins west of where the sweep around the circle does (`StartsWest`), its cuts
lie inside the columns (`columnSeam_inside`). Then the total of two columns is the length that their
arcs have in common on the circle (`columnTotal_eq`), and an element of the operator is the product
of what the bands and what the arcs have in common (`dense_eq_common`).

That is so if no target column begins west of the date line and no source column a turn or more east
of it (`startsWest_of_offsets`). Then an element of the operator is a fraction of an area
(`build_eq_commonArea`).
-/

namespace Regrid

/-- The first column begins at most a turn east of the date line. -/
structure Lattice.WithinTurn (l : Lattice Rat) : Prop where
  offset_nonneg : 0 ≤ l.offset
  offset_le : l.offset ≤ l.columns

instance (l : Lattice Rat) : Decidable l.WithinTurn :=
  decidable_of_iff (0 ≤ l.offset ∧ l.offset ≤ l.columns)
    ⟨fun ⟨h1, h2⟩ => ⟨h1, h2⟩, fun ⟨h1, h2⟩ => ⟨h1, h2⟩⟩

namespace Remap

variable {r : Remap Rat}

/-! ## Columns as arcs -/

/-- Positions of the sweep are turns, in units of source columns. -/
theorem columnPlace_eq (i : Nat) : r.columnPlace i =
    r.source.columns * r.target.meridian i + (r.source.columns - r.source.offset) := by
  unfold columnPlace ColumnCursor.place Lattice.meridian
  ring

/-- So are the cells. -/
theorem cell_eq_meridian (hm : 0 < r.source.columns) (l : Nat) (t : Int) :
    ((l + (t + 1) * r.source.columns : Int) : Rat) =
      r.source.columns * (r.source.meridian l + t) + (r.source.columns - r.source.offset) := by
  have : (r.source.columns : Rat) ≠ 0 := by exact_mod_cast hm.ne'
  unfold Lattice.meridian
  push_cast
  field_simp
  ring

/-- The cells of a column are one for every turn. -/
theorem foldColumn_eq_iff {l : Nat} (hl : l < r.source.columns) {c : Int} :
    r.foldColumn c = l ↔ ∃ t : Int, c = l + (t + 1) * r.source.columns := by
  unfold foldColumn
  constructor
  · intro h
    have hnn := Int.emod_nonneg c (b := r.source.columns) (by omega)
    have hdiv := Int.emod_add_mul_ediv c r.source.columns
    refine ⟨c / r.source.columns - 1, ?_⟩
    rw [sub_add_cancel, mul_comm]
    omega
  · rintro ⟨t, rfl⟩
    rw [Int.add_mul_emod_self_right, Int.emod_eq_of_lt (by omega) (by omega), Int.toNat_natCast]

/-- The sweep, which begins a turn west of source column `0`, begins west of the target columns. -/
def StartsWest (r : Remap Rat) : Prop := r.source.meridian 0 ≤ r.target.meridian 0 + 1

instance (r : Remap Rat) : Decidable r.StartsWest :=
  inferInstanceAs (Decidable (r.source.meridian 0 ≤ r.target.meridian 0 + 1))

theorem startsWest_of_offsets (hm : 0 < r.source.columns)
    (hsource : r.source.offset ≤ r.source.columns) (htarget : 0 ≤ r.target.offset) :
    r.StartsWest := by
  have hm' : (0 : Rat) < r.source.columns := by exact_mod_cast hm
  have hs : r.source.meridian 0 ≤ 1 := by
    unfold Lattice.meridian
    rw [Nat.cast_zero, add_zero, div_le_one hm']
    exact hsource
  have ht : 0 ≤ r.target.meridian 0 := by
    unfold Lattice.meridian
    positivity
  unfold StartsWest
  linarith

theorem startsWest_of_withinTurn (hm : 0 < r.source.columns) (hsource : r.source.WithinTurn)
    (htarget : r.target.WithinTurn) : r.StartsWest :=
  startsWest_of_offsets hm hsource.offset_le htarget.offset_nonneg

/-- No position of the sweep lies west of its start. -/
theorem StartsWest.columnPlace_nonneg (h : r.StartsWest) (hm : 0 < r.source.columns) (i : Nat) :
    0 ≤ r.columnPlace i := by
  have hm' : (r.source.columns : Rat) ≠ 0 := by exact_mod_cast hm.ne'
  have hsource : r.source.offset = r.source.columns * r.source.meridian 0 := by
    unfold Lattice.meridian
    rw [Nat.cast_zero, add_zero, mul_div_cancel₀ _ hm']
  have hturn : 0 ≤ (r.source.columns : Rat) * (r.target.meridian 0 + 1 - r.source.meridian 0) :=
    mul_nonneg (Nat.cast_nonneg _) (sub_nonneg.mpr h)
  have hfirst : 0 ≤ r.columnPlace 0 := by
    rw [columnPlace_eq, hsource]
    linarith
  exact hfirst.trans (r.columnPlace_mono (Nat.zero_le i))

section Arcs

variable (hm : 0 < r.source.columns) (hn : 0 < r.target.columns) (hstart : r.StartsWest)
include hm hn hstart

/-- **The cuts of the sweep lie inside the columns.** -/
theorem columnSeam_inside {i : Nat} (hi : i ≤ r.target.columns) : (r.columnSeam i).Inside := by
  have hinside : ∀ j, j < r.target.columns → (r.columnSeam j).Inside := by
    intro j hj
    obtain ⟨hat, hbeyond⟩ := columnSeam_at hn hj
    refine ⟨?_, hbeyond⟩
    rcases columnSeam_before hn hj with h | h
    · exact h
    · -- the cursor has not left the cells that end where the sweep begins
      have hplace := hstart.columnPlace_nonneg hm j
      have hright : ((r.columnSeam j).right : Rat) ≤ 0 := by exact_mod_cast h
      have := hat.before
      linarith
  rcases hi.lt_or_eq with hlt | rfl
  · exact hinside i hlt
  · rw [columnSeam_last hn]
    exact hinside 0 hn

/-- **The total of two columns** is the length that their arcs have in common. -/
theorem columnTotal_eq {i l : Nat} (hi : i < r.target.columns) (hl : l < r.source.columns) :
    r.columnTotal i l = r.source.columns * arcCommon (r.target.meridian i)
      (r.target.meridian (i + 1)) (r.source.meridian l) (r.source.meridian (l + 1)) := by
  have hrun := columnRun hm hn
  have hin := fun {i : Nat} (hi : i ≤ r.target.columns) =>
    columnSeam_inside hm hn hstart hi
  have hx : Monotone fun k : Int => (k : Rat) := Int.cast_mono
  have hm' : (0 : Int) < r.source.columns := by omega
  have hcommon : ∀ t : Int, common (r.columnPlace i) (r.columnPlace (i + 1))
      ((l + (t + 1) * r.source.columns : Int) : Rat)
      ((l + (t + 1) * r.source.columns + 1 : Int) : Rat) =
      r.source.columns * common (r.target.meridian i) (r.target.meridian (i + 1))
        (r.source.meridian l + t) (r.source.meridian (l + 1) + t) := by
    intro t
    have hnext : (l + (t + 1) * r.source.columns + 1 : Int) =
        (l + 1 : Nat) + (t + 1) * r.source.columns := by push_cast; ring
    rw [hnext, cell_eq_meridian hm, cell_eq_meridian hm, columnPlace_eq, columnPlace_eq,
      common_affine (Nat.cast_nonneg _)]
  unfold columnTotal
  rw [columnOverlaps_eq, columnSpans_eq hn, hrun.total_eq_common (fun c _ => by push_cast; ring) hx
    hi (r.columnPlace_mono (Nat.le_succ i)) (hin hi.le) (hin hi), arcCommon, Finset.mul_sum]
  symm
  refine Finset.sum_bij_ne_zero (fun t _ _ => l + (t + 1) * r.source.columns) ?_ ?_ ?_ ?_
  · intro t _ ht
    by_contra hout
    rw [← hcommon t] at ht
    exact ht (hrun.common_eq_zero hx r.columnPlace_mono (hin (Nat.zero_le _)) (hin le_rfl) hi hout)
  · intro t _ _ t' _ _ h
    have h := Int.eq_of_mul_eq_mul_right hm'.ne' (add_left_cancel h)
    omega
  · intro c _ hc
    have hfold : r.foldColumn c = l := by_contra fun h => hc (if_neg h)
    rw [if_pos hfold] at hc
    obtain ⟨t, rfl⟩ := (foldColumn_eq_iff hl).mp hfold
    rw [hcommon t] at hc
    exact ⟨t, by_contra fun h => hc (by rw [common_turn_eq_zero h, mul_zero]), hc, rfl⟩
  · intro t _ _
    rw [if_pos ((foldColumn_eq_iff hl).mpr ⟨t, rfl⟩), hcommon t]

/-- Overlaps of columns are no negative amounts. -/
theorem columnOverlap_nonneg {o : Overlap Rat} (ho : o ∈ r.columnOverlaps) : 0 ≤ o.amount := by
  rw [columnOverlaps_eq, columnSpans_eq hn] at ho
  exact (columnRun hm hn).amount_nonneg (fun c _ => by push_cast; ring) Int.cast_mono
    (fun i _ => r.columnPlace_mono (Nat.le_succ i))
    (fun i hi => columnSeam_inside hm hn hstart hi) ho

end Arcs

/-! ## Cells -/

section Cells

variable (hs : r.source.Partition) (ht : r.target.Partition)
include hs ht

/-- Overlaps of bands are no negative amounts. -/
theorem bandOverlap_nonneg {o : Overlap Rat} (ho : o ∈ r.bandOverlaps) : 0 ≤ o.amount := by
  rw [bandOverlaps_eq, bandSpans_eq hs ht] at ho
  exact (bandRun hs ht).amount_nonneg (fun c hc => band_eq_ruler hs ht hc) hs.ruler_mono
    (fun j hj => (ht.increasing j hj).le) (fun j hj => (bandSeam_at hs ht hj).2) ho

section Swept

variable (hstart : r.StartsWest)
include hstart

/-- An operator has no negative entries if there are no negative weights. -/
theorem entry_nonneg {weights : Array Rat}
    (hw : ∀ b, b < r.target.size → 0 ≤ weights.getD b 0) {e : Entry Rat}
    (he : e ∈ (r.operator weights none).entries) : 0 ≤ e.value := by
  simp only [operator, List.mem_map] at he
  obtain ⟨o, ho, rfl⟩ := he
  have hrow := (mem_overlaps hs ht ho).1
  obtain ⟨b, hb, c, hc, rfl⟩ := exists_of_mem_overlaps ho
  have hband : 0 ≤ r.target.band b.target := (ht.band_pos (mem_bandOverlaps hs ht hb).1).le
  have hb' := bandOverlap_nonneg hs ht hb
  have hc' := columnOverlap_nonneg hs.columns_pos ht.columns_pos hstart hc
  have hratio : (0 : Rat) ≤ r.target.columns / r.source.columns := by positivity
  unfold entryOf
  simp only [Lattice.div_cell (mem_columnOverlaps hs ht hc).1]
  exact div_nonneg (mul_nonneg (mul_nonneg (hw _ hrow) (mul_nonneg hb' hc')) hratio) hband

/-- **An element of an operator** is the weight of the target cell times the part of its band and
the part of its arc that lie in the source cell. -/
theorem dense_eq_common (weights : Array Rat) {j i k l : Nat} (hj : j < r.target.rows)
    (hi : i < r.target.columns) (hk : k < r.source.rows) (hl : l < r.source.columns) :
    (r.operator weights none).dense (j * r.target.columns + i) (k * r.source.columns + l) =
      weights.getD (j * r.target.columns + i) 0
        * (common (r.target.edge j) (r.target.edge (j + 1))
            (r.source.edge k) (r.source.edge (k + 1))
          / r.target.band j)
        * (r.target.columns * arcCommon (r.target.meridian i) (r.target.meridian (i + 1))
          (r.source.meridian l) (r.source.meridian (l + 1))) := by
  have hm : (r.source.columns : Rat) ≠ 0 := by exact_mod_cast hs.columns_pos.ne'
  rw [dense_operator hs ht weights hi hl, bandTotal_eq_common hs ht hj hk,
    columnTotal_eq hs.columns_pos ht.columns_pos hstart hi hl]
  field_simp

/-- An element of an operator is a fraction of the area of the target cell. -/
theorem dense_eq_commonArea {turn radius : Rat} (hturn : turn ≠ 0) (hradius : radius ≠ 0)
    (weights : Array Rat) {b a : Nat} (hb : b < r.target.size) (ha : a < r.source.size) :
    (r.operator weights none).dense b a =
      weights.getD b 0 * r.target.commonArea r.source turn radius b a
        / (r.target.cellAreas turn radius).getD b 0 := by
  obtain ⟨j, i, hj, hi, rfl⟩ := Lattice.exists_cell hb
  obtain ⟨k, l, hk, hl, rfl⟩ := Lattice.exists_cell ha
  have hband : r.target.band j ≠ 0 := (ht.band_pos hj).ne'
  have hn : (r.target.columns : Rat) ≠ 0 := by exact_mod_cast ht.columns_pos.ne'
  rw [dense_eq_common hs ht hstart weights hj hi hk hl, Lattice.getD_cellAreas _ _ hj hi,
    Lattice.rowArea_eq, Lattice.commonArea, Lattice.div_cell hi, Lattice.div_cell hl,
    Lattice.mod_cell hi, Lattice.mod_cell hl]
  field_simp

end Swept

variable (hsource : r.source.offset ≤ r.source.columns) (htarget : 0 ≤ r.target.offset)
include hsource htarget

/-- **An operator distributes areas.** Its element at a target and a source cell is the weight of
the target cell times the part of its area that lies in the source cell. So there are no negative
entries without negative weights, and the element of a cell with a weight is zero exactly if the
cells do not overlap. -/
theorem build_eq_commonArea {turn radius : Rat} (hturn : turn ≠ 0) (hradius : radius ≠ 0)
    {weights : Array Rat} (hweights : weights.size = r.target.size) :
    ∃ m, r.build { weights := some weights } = .ok (m, []) ∧
      (∀ b, b < r.target.size → ∀ a, a < r.source.size →
        m.dense b a = weights.getD b 0 * r.target.commonArea r.source turn radius b a
          / (r.target.cellAreas turn radius).getD b 0) ∧
      ((∀ b, b < r.target.size → 0 ≤ weights.getD b 0) → ∀ e ∈ m.entries, 0 ≤ e.value) ∧
      ∀ b, b < r.target.size → ∀ a, a < r.source.size →
        (m.dense b a = 0 ↔
          weights.getD b 0 = 0 ∨ Disjoint (r.target.interior b) (r.source.interior a)) := by
  have hstart := startsWest_of_offsets hs.columns_pos hsource htarget
  refine ⟨_, build_weights ht hweights,
    fun b hb a ha => dense_eq_commonArea hs ht hstart hturn hradius weights hb ha,
    fun hw e he => entry_nonneg hs ht hstart hw he, fun b hb a ha => ?_⟩
  rw [dense_eq_commonArea hs ht hstart hturn hradius weights hb ha, div_eq_zero_iff,
    mul_eq_zero, Lattice.commonArea_eq_zero_iff hturn hradius, or_iff_left]
  obtain ⟨j, i, hj, hi, rfl⟩ := Lattice.exists_cell hb
  have hn : (r.target.columns : Rat) ≠ 0 := by exact_mod_cast ht.columns_pos.ne'
  rw [Lattice.getD_cellAreas _ _ hj hi, Lattice.rowArea_eq]
  exact mul_ne_zero (mul_ne_zero (div_ne_zero hturn hn) (ht.band_pos hj).ne')
    (mul_ne_zero hradius hradius)

omit hs ht hsource htarget in
/-- A target cell across the date line takes from both ends of the source. -/
theorem build_eq_commonArea_dateLine :
    Lattice.Partition ⟨4, 0, #[-1, 1]⟩ ∧ Lattice.Partition ⟨2, 1 / 2, #[-1, 1]⟩ ∧
    ∃ m, Remap.build (α := Rat) ⟨⟨4, 0, #[-1, 1]⟩, ⟨2, 1 / 2, #[-1, 1]⟩⟩
        { weights := some #[1, 1] } = .ok (m, []) ∧
      m.dense 1 0 = 1 / 2 ∧ m.dense 1 1 = 0 ∧ m.dense 1 3 = 1 / 2 := by
  have hs : Lattice.Partition ⟨4, 0, #[-1, 1]⟩ :=
    ⟨by decide, by decide, rfl, rfl, by decide +kernel⟩
  have ht : Lattice.Partition ⟨2, 1 / 2, #[-1, 1]⟩ :=
    ⟨by decide, by decide, rfl, rfl, by decide +kernel⟩
  have hone : (1 : Rat) ≠ 0 := one_ne_zero
  obtain ⟨m, hm, hdense, -⟩ := build_eq_commonArea (r := ⟨_, _⟩) hs ht (by decide +kernel)
    (by decide +kernel) hone hone (show (#[1, 1] : Array Rat).size = _ from rfl)
  refine ⟨hs, ht, m, hm, ?_, ?_, ?_⟩
  · exact (hdense 1 (by decide) 0 (by decide)).trans (by decide +kernel)
  · exact (hdense 1 (by decide) 1 (by decide)).trans (by decide +kernel)
  · exact (hdense 1 (by decide) 3 (by decide)).trans (by decide +kernel)

end Cells

end Remap

end Regrid

import Mathlib.Data.List.GetD
import Mathlib.Data.Rat.Floor
import Mathlib.Order.Interval.Finset.Nat
import Regrid.Proofs.Remap.Run

/-!
# The sweep around the circle

The sweep is that of `Hntr._partition_east_west`. Positions are measured in source columns, from
where column `0` begins a turn west. `columnRun` says that the seams of the target columns form a
run, the last one a turn after the first. It holds for all offsets: a cursor that starts east of the
first positions stays in its cell, and the cuts it makes there add up all the same.

* `sum_columnTotal_sources`: a target column meets as many source columns as it is wide.
* `sum_columnTotal_targets`: every source column is met once in all.
* `columnTotal_eq_common`: if no position lies west of the start, the total is a common length.
-/

namespace Regrid

namespace ColumnCursor

variable {base width position : Rat} {c : ColumnCursor Rat}

/-- The cursor stands at the eastern edge of its cell, where cell `0` begins at `base` columns. -/
def On (base width : Rat) (c : ColumnCursor Rat) : Prop := c.edge = (base + c.cell + 1) * width

/-- A position in columns from the beginning of cell `0`. -/
def place (base width position : Rat) : Rat := position / width - base

/-! ## Moving on -/

theorem advance_on (hc : c.On base width) (n : Nat) :
    (c.advance width position n).On base width := by
  induction n generalizing c with
  | zero => exact hc
  | succ n ih =>
    unfold advance
    split
    · refine ih ?_
      unfold On at hc ⊢
      simp only
      push_cast
      rw [hc]
      ring
    · exact hc

theorem cell_le_advance (n : Nat) : c.cell ≤ (c.advance width position n).cell := by
  induction n generalizing c with
  | zero => exact le_refl _
  | succ n ih =>
    unfold advance
    split
    · exact (Int.le_add_one le_rfl).trans (ih (c := ⟨c.cell + 1, c.edge + width⟩))
    · exact le_refl _

/-- A cursor that moves stops in the first cell whose eastern edge is not west of the position. -/
theorem advance_eq_or (n : Nat) : c.advance width position n = c ∨
    (c.advance width position n).edge - width < position := by
  induction n generalizing c with
  | zero => exact Or.inl rfl
  | succ n ih =>
    unfold advance
    split
    · rename_i hlt
      right
      rcases ih (c := ⟨c.cell + 1, c.edge + width⟩) with h | h
      · rw [h]
        simpa using hlt
      · exact h
    · exact Or.inl rfl

theorem le_edge_advance {n : Nat} (h : position ≤ c.edge + n * width) :
    position ≤ (c.advance width position n).edge := by
  induction n generalizing c with
  | zero =>
    show position ≤ c.edge
    simpa using h
  | succ n ih =>
    unfold advance
    split
    · refine ih ?_
      push_cast at h
      simp only
      linarith
    · exact not_lt.mp ‹_›

/-- The moves suffice to reach the position. -/
theorem le_edge_advance_stepsTo (hw : 0 < width) :
    position ≤ (c.advance width position (c.stepsTo width position)).edge := by
  apply le_edge_advance
  have h1 : (position - c.edge) / width ≤ ((Rat.ceil ((position - c.edge) / width)).toNat : Rat) :=
    Rat.le_ceil.trans (by exact_mod_cast Int.self_le_toNat _)
  rw [div_le_iff₀ hw] at h1
  unfold stepsTo
  push_cast
  have : (Scalar.ceil ((position - c.edge) / width)).toNat =
      (Rat.ceil ((position - c.edge) / width)).toNat := rfl
  rw [this]
  linarith

/-! ## One seam -/

/-- The seam at a position, and the cursor behind it, from a cursor before it. -/
structure Lands (base width position : Rat) (c : ColumnCursor Rat) (s : Seam Rat)
    (c' : ColumnCursor Rat) : Prop where
  on : c'.On base width
  cell : c'.cell = s.right
  at_pos : s.At (fun k => k) (place base width position)
  le_left : c.cell ≤ s.left
  beyond_nonneg : 0 ≤ s.beyond
  /-- Only where the cursor need not move can its cell begin east of the position. -/
  before_nonneg : 0 ≤ s.before ∨ s.right = c.cell

theorem seam_lands (hw : 0 < width) (hc : c.On base width) (position : Rat) :
    Lands base width position c (c.seam width position).1 (c.seam width position).2 := by
  obtain ⟨d, hd⟩ : ∃ d, c.advance width position (c.stepsTo width position) = d := ⟨_, rfl⟩
  have hon : d.On base width := hd ▸ advance_on hc _
  have hge : position ≤ d.edge := hd ▸ le_edge_advance_stepsTo hw
  have hcell : c.cell ≤ d.cell := hd ▸ cell_le_advance _
  have hmove : d = c ∨ d.edge - width < position := hd ▸ advance_eq_or _
  unfold seam
  rw [hd]
  have hedge : d.edge / width = base + d.cell + 1 := by rw [hon, mul_div_cancel_right₀ _ hw.ne']
  simp only [beq_iff_eq]
  split
  · rename_i heq
    refine ⟨?_, rfl, ⟨Or.inr ⟨rfl, rfl⟩, ?_, ?_⟩, hcell, le_refl _, Or.inl (le_refl _)⟩
    · unfold On at hon ⊢
      simp only
      push_cast
      rw [hon]
      ring
    · unfold place
      simp only
      rw [← heq, hedge]
      push_cast
      ring
    · unfold place
      simp only
      rw [← heq, hedge]
      push_cast
      ring
  · refine ⟨hon, rfl, ⟨Or.inl rfl, ?_, ?_⟩, hcell, ?_, ?_⟩
    · unfold place
      simp only
      rw [sub_div, hedge]
      push_cast
      ring
    · unfold place
      simp only
      rw [sub_div, hedge]
      ring
    · exact div_nonneg (sub_nonneg.mpr hge) hw.le
    · rcases hmove with h | h
      · right
        rw [h]
      · left
        simp only
        rw [sub_nonneg, div_le_one hw]
        linarith

/-! ## All seams -/

theorem sweep_cons (p : Rat) (ps : List Rat) : c.sweep width (p :: ps) =
    (c.seam width p).1 :: (c.seam width p).2.sweep width ps :=
  rfl

/-- Every seam of a sweep lies at its position. -/
theorem sweep_at (hw : 0 < width) : ∀ (ps : List Rat) {c : ColumnCursor Rat}, c.On base width →
    List.Forall₂ (fun s p => s.At (fun k => k) (place base width p) ∧ 0 ≤ s.beyond)
      (c.sweep width ps) ps
  | [], _, _ => List.Forall₂.nil
  | p :: ps, c, hc => by
    have h := seam_lands hw hc p
    exact List.Forall₂.cons ⟨h.at_pos, h.beyond_nonneg⟩ (sweep_at hw ps h.on)

/-- No seam of a sweep lies before the cursor. -/
theorem cell_le_left (hw : 0 < width) : ∀ (ps : List Rat) {c : ColumnCursor Rat},
    c.On base width → ∀ s ∈ c.sweep width ps, c.cell ≤ s.left
  | [], _, _, s, hs => absurd hs List.not_mem_nil
  | p :: ps, c, hc, s, hs => by
    have h := seam_lands hw hc p
    rcases List.mem_cons.mp hs with rfl | hs
    · exact h.le_left
    · have := cell_le_left hw ps h.on s hs
      have := h.at_pos.left_le_right
      have := h.le_left
      have := h.cell
      omega

/-- A span begins where or behind where the one before it ended. -/
theorem sweep_ordered (hw : 0 < width) : ∀ (ps : List Rat) {c : ColumnCursor Rat},
    c.On base width → (c.sweep width ps).Pairwise fun w e => w.right ≤ e.left
  | [], _, _ => List.Pairwise.nil
  | p :: ps, c, hc => by
    have h := seam_lands hw hc p
    rw [sweep_cons, List.pairwise_cons]
    refine ⟨fun e he => ?_, sweep_ordered hw ps h.on⟩
    rw [← h.cell]
    exact cell_le_left hw ps h.on e he

/-- A seam begins inside its cell, or the cursor has not left the cells up to `start`. -/
theorem sweep_before (hw : 0 < width) {start : Int} : ∀ {ps : List Rat} {c : ColumnCursor Rat},
    c.On base width → ps.Pairwise (· ≤ ·) →
    (∀ p ∈ ps, c.cell ≤ start ∨ (c.cell : Rat) ≤ place base width p) →
    ∀ s ∈ c.sweep width ps, 0 ≤ s.before ∨ s.right ≤ start
  | [], _, _, _, _, s, hs => absurd hs List.not_mem_nil
  | p :: ps, c, hc, hps, hstart, s, hs => by
    have h := seam_lands hw hc p
    have hp := hstart p List.mem_cons_self
    have hat := h.at_pos.before
    have hfirst : 0 ≤ (c.seam width p).1.before ∨ (c.seam width p).1.right ≤ start := by
      rcases h.before_nonneg with h0 | hr
      · exact Or.inl h0
      · rw [hr] at hat ⊢
        rcases hp with hp | hp
        · exact Or.inr hp
        · left
          linarith
    rcases List.mem_cons.mp hs with rfl | hs
    · exact hfirst
    · refine sweep_before hw h.on (List.pairwise_cons.mp hps).2 (fun q hq => ?_) s hs
      rw [h.cell]
      refine hfirst.symm.imp id fun h0 => ?_
      have hpq : place base width p ≤ place base width q := by
        unfold place
        have := div_le_div_of_nonneg_right ((List.pairwise_cons.mp hps).1 q hq) hw.le
        linarith
      linarith

end ColumnCursor

namespace Remap

variable {r : Remap Rat}

/-- The position of the western edge of a target column. -/
def columnPlace (r : Remap Rat) (i : Nat) : Rat :=
  ColumnCursor.place (r.source.offset - r.source.columns) r.target.columns
    ((i + r.target.offset) * r.source.columns)

/-- The seam at the western edge of a target column; that behind the last column is the first one, a
turn later. -/
def columnSeam (r : Remap Rat) (i : Nat) : Seam Rat :=
  if i < r.target.columns then r.columnSeams.getD i ⟨0, 0, 0, 0⟩
  else (r.columnSeams.getD 0 ⟨0, 0, 0, 0⟩).shift r.source.columns

/-- The total overlap of a target and a source column, as a fraction of the source column. -/
def columnTotal (r : Remap Rat) (i k : Nat) : Rat := Overlap.total r.columnOverlaps i k

/-! ## The seams of the columns are a run -/

theorem columnPlace_sub {i j : Nat} (hn : 0 < r.target.columns) :
    r.columnPlace j - r.columnPlace i =
      ((j : Rat) - i) * (r.source.columns / r.target.columns) := by
  have : (r.target.columns : Rat) ≠ 0 := by exact_mod_cast hn.ne'
  unfold columnPlace ColumnCursor.place
  field_simp
  ring

theorem columnPlace_mono (r : Remap Rat) : Monotone r.columnPlace := by
  intro i j hij
  unfold columnPlace ColumnCursor.place
  gcongr

/-- The western edges of the target columns, in units of which a source column has as many as the
target has columns. -/
def columnEdges (r : Remap Rat) : List Rat :=
  (List.range r.target.columns).map fun k : Nat => (k + r.target.offset) * r.source.columns

/-- The cursor from which the sweep begins. -/
def startCursor (r : Remap Rat) : ColumnCursor Rat :=
  ⟨0, (1 + r.source.offset - r.source.columns) * r.target.columns⟩

theorem start_on (r : Remap Rat) :
    r.startCursor.On (r.source.offset - r.source.columns) r.target.columns := by
  unfold ColumnCursor.On startCursor
  push_cast
  ring

section Seams

variable (hm : 0 < r.source.columns) (hn : 0 < r.target.columns)
include hn

theorem columnSeams_at : List.Forall₂
    (fun s p => s.At (fun k => k)
      (ColumnCursor.place (r.source.offset - r.source.columns) r.target.columns p) ∧ 0 ≤ s.beyond)
    r.columnSeams r.columnEdges :=
  ColumnCursor.sweep_at (by exact_mod_cast hn) r.columnEdges r.start_on

theorem length_columnSeams : r.columnSeams.length = r.target.columns := by
  rw [(columnSeams_at hn).length_eq, columnEdges, List.length_map, List.length_range]

theorem lt_length_columnSeams {i : Nat} (hi : i < r.target.columns) : i < r.columnSeams.length := by
  rw [length_columnSeams hn]
  exact hi

omit hn in
theorem columnSeam_eq_getElem {i : Nat} (hi : i < r.target.columns) (h : i < r.columnSeams.length) :
    r.columnSeam i = r.columnSeams[i] := by
  unfold columnSeam
  rw [if_pos hi, ← List.getElem_eq_getD]

theorem columnSeam_mem {i : Nat} (hi : i < r.target.columns) :
    r.columnSeam i ∈ r.columnSeams := by
  rw [columnSeam_eq_getElem hi (lt_length_columnSeams hn hi)]
  exact List.getElem_mem _

/-- Each seam lies at the western edge of its column. -/
theorem columnSeam_at {i : Nat} (hi : i < r.target.columns) :
    (r.columnSeam i).At (fun k => k) (r.columnPlace i) ∧ 0 ≤ (r.columnSeam i).beyond := by
  have h := List.forall₂_iff_get.mp (columnSeams_at hn)
  have h := h.2 i (lt_length_columnSeams hn hi)
    (by rw [columnEdges, List.length_map, List.length_range]; exact hi)
  rw [columnSeam_eq_getElem hi (lt_length_columnSeams hn hi)]
  simpa [columnEdges, columnPlace] using h

/-- The seam behind the last column, a turn after the first one. -/
theorem columnSeam_last :
    r.columnSeam r.target.columns = (r.columnSeam 0).shift r.source.columns := by
  unfold columnSeam
  rw [if_neg (lt_irrefl _), if_pos hn]

theorem columnPlace_last : r.columnPlace r.target.columns = r.columnPlace 0 + r.source.columns := by
  have h : (r.target.columns : Rat) ≠ 0 := by exact_mod_cast hn.ne'
  have hsub := columnPlace_sub (i := 0) (j := r.target.columns) hn
  push_cast at hsub
  rw [sub_zero, mul_div_cancel₀ _ h] at hsub
  linarith

/-- A seam begins inside its cell, or the cursor is still where it started. -/
theorem columnSeam_before {i : Nat} (hi : i < r.target.columns) :
    0 ≤ (r.columnSeam i).before ∨ (r.columnSeam i).right ≤ 0 := by
  have hsorted : r.columnEdges.Pairwise (· ≤ ·) := by
    rw [columnEdges, List.pairwise_map]
    refine List.pairwise_lt_range.imp fun {a b} hab => ?_
    have : (a : Rat) ≤ b := by exact_mod_cast hab.le
    gcongr
  exact ColumnCursor.sweep_before (by exact_mod_cast hn) r.start_on hsorted
    (fun p _ => Or.inl (le_refl _)) _ (columnSeam_mem hn hi)

/-- The last span ends at the first seam, a turn later. -/
theorem columnSpans_eq : r.columnSpans = runSpans r.target.columns r.columnSeam := by
  have hlen := length_columnSeams (r := r) hn
  obtain ⟨s, ss, hss⟩ : ∃ s ss, r.columnSeams = s :: ss :=
    List.exists_cons_of_length_pos (by omega)
  have h0 : r.columnSeam 0 = s := by rw [columnSeam, if_pos hn, hss]; rfl
  rw [hss] at hlen
  have hseam : ∀ i, i < r.target.columns → ∀ t, (s :: ss ++ [t]).getD i ⟨0, 0, 0, 0⟩ =
      r.columnSeam i := by
    intro i hi t
    rw [List.getD_append _ _ _ _ (by omega), columnSeam, if_pos hi, hss]
  rw [columnSpans, hss]
  simp only
  rw [ofSeams_eq_runSpans _ ⟨0, 0, 0, 0⟩]
  unfold runSpans
  rw [List.length_append, hlen, List.length_singleton, Nat.add_sub_cancel]
  refine List.map_congr_left fun i hi => ?_
  rw [List.mem_range] at hi
  simp only
  rw [hseam i hi]
  rcases Nat.lt_or_ge (i + 1) r.target.columns with hlt | hge
  · rw [hseam (i + 1) hlt]
  · have hlast : i + 1 = r.target.columns := by omega
    rw [List.getD_append_right _ _ _ _ (by omega), hlen, hlast, Nat.sub_self, columnSeam_last hn,
      h0]
    rfl

include hm

theorem columnPlace_lt_last {i : Nat} (hi : i < r.target.columns) :
    r.columnPlace i < r.columnPlace r.target.columns := by
  have h1 : (0 : Rat) < r.source.columns / r.target.columns :=
    div_pos (by exact_mod_cast hm) (by exact_mod_cast hn)
  have h2 : (0 : Rat) < (r.target.columns : Rat) - i := sub_pos.mpr (by exact_mod_cast hi)
  have h3 := columnPlace_sub (i := i) (j := r.target.columns) hn
  have h4 := mul_pos h2 h1
  linarith

/-- The last column does not begin behind its end. -/
theorem columnSeam_right_le_last {i : Nat} (hi : i < r.target.columns) :
    (r.columnSeam i).right ≤ (r.columnSeam 0).left + r.source.columns := by
  obtain ⟨h0, hb⟩ := columnSeam_at hn hn
  have h0 := h0.beyond
  rcases columnSeam_before hn hi with hin | hle
  · have hr := (columnSeam_at hn hi).1.before
    have hlt := columnPlace_lt_last hm hn hi
    rw [columnPlace_last hn] at hlt
    have : ((r.columnSeam i).right : Rat) <
        ((r.columnSeam 0).left + r.source.columns + 1 : Int) := by
      push_cast at h0 ⊢
      linarith
    have := Int.cast_lt.mp this
    omega
  · have := ColumnCursor.cell_le_left (by exact_mod_cast hn) r.columnEdges r.start_on _
      (columnSeam_mem hn hn)
    simp only [startCursor] at this
    omega

/-- **The seams of the target columns form a run** around the circle. -/
theorem columnRun : Run (fun k => k) r.columnPlace r.target.columns r.columnSeam := by
  refine ⟨fun i hi => ?_, fun i hi => ?_⟩
  · rcases hi.lt_or_eq with hlt | rfl
    · exact (columnSeam_at hn hlt).1
    · have h0 := (columnSeam_at hn hn).1
      have hb := h0.beyond
      have ha := h0.before
      rw [columnSeam_last hn, columnPlace_last hn]
      unfold Seam.shift
      refine ⟨?_, ?_, ?_⟩
      · rcases h0.joined with h | ⟨h, h'⟩
        · exact Or.inl (by simp only; omega)
        · exact Or.inr ⟨by simp only; omega, h'⟩
      · simp only at hb ⊢
        push_cast at hb ⊢
        linarith
      · simp only at ha ⊢
        push_cast at ha ⊢
        linarith
  · rcases Nat.lt_or_ge (i + 1) r.target.columns with hlt | hge
    · rw [columnSeam_eq_getElem hi (lt_length_columnSeams hn hi),
        columnSeam_eq_getElem hlt (lt_length_columnSeams hn hlt)]
      exact List.pairwise_iff_getElem.mp
        (ColumnCursor.sweep_ordered (by exact_mod_cast hn) r.columnEdges r.start_on) i (i + 1) _ _
        (Nat.lt_succ_self i)
    · -- the last column ends at the first seam, a turn later
      have hlast : i + 1 = r.target.columns := by omega
      rw [hlast, columnSeam_last hn]
      exact columnSeam_right_le_last hm hn hi

end Seams

/-! ## Totals -/

/-- A column number without its turns. -/
def foldColumn (r : Remap Rat) (k : Int) : Nat := (k % r.source.columns).toNat

theorem columnOverlaps_eq (r : Remap Rat) :
    r.columnOverlaps = spanOverlaps r.columnSpans r.foldColumn fun _ => 1 :=
  rfl

section Totals

variable (hm : 0 < r.source.columns)
include hm

theorem foldColumn_lt (k : Int) : r.foldColumn k < r.source.columns := by
  unfold foldColumn
  have h1 := Int.emod_lt_of_pos k (b := r.source.columns) (by omega)
  have h2 := Int.emod_nonneg k (b := r.source.columns) (by omega)
  omega

/-- In a turn there is one column of every number. -/
theorem sum_turn (R : Int) {a : Nat} (ha : a < r.source.columns) :
    ∑ k ∈ Finset.Ico R (R + r.source.columns),
      (if r.foldColumn k = a then (1 : Rat) else 0) = 1 := by
  have hm' : (0 : Int) < r.source.columns := by omega
  have ha' : (a : Int) % r.source.columns = a := Int.emod_eq_of_lt (by omega) (by omega)
  have hiff : ∀ k ∈ Finset.Ico R (R + r.source.columns),
      (r.foldColumn k = a ↔ k = R + ((a : Int) - R) % r.source.columns) := by
    intro k hk
    rw [Finset.mem_Ico] at hk
    have hnn := Int.emod_nonneg k hm'.ne'
    have hfold : r.foldColumn k = a ↔ k % r.source.columns = a := by
      unfold foldColumn
      omega
    have hkR : (k - R) % r.source.columns = k - R := Int.emod_eq_of_lt (by omega) (by omega)
    rw [hfold]
    constructor
    · intro h
      have := Int.add_emod_eq_add_emod_right (-R) (h.trans ha'.symm)
      rw [← sub_eq_add_neg, ← sub_eq_add_neg, hkR] at this
      omega
    · intro h
      rw [h, Int.add_emod_emod, add_sub_cancel, ha']
  rw [Finset.sum_congr rfl fun k hk => if_congr (hiff k hk) rfl rfl, Finset.sum_ite_eq',
    if_pos]
  have h1 := Int.emod_nonneg ((a : Int) - R) hm'.ne'
  have h2 := Int.emod_lt_of_pos ((a : Int) - R) hm'
  rw [Finset.mem_Ico]
  omega

variable (hn : 0 < r.target.columns)
include hn

/-- **A target column meets as many source columns as it is wide.** -/
theorem sum_columnTotal_sources {i : Nat} (hi : i < r.target.columns) :
    ∑ k ∈ Finset.range r.source.columns, r.columnTotal i k =
      r.source.columns / r.target.columns := by
  unfold columnTotal
  rw [columnOverlaps_eq, columnSpans_eq hn, (columnRun hm hn).sum_total_sources
    (fun c _ => by push_cast; ring) hi fun c _ => foldColumn_lt hm c, columnPlace_sub hn]
  push_cast
  ring

/-- **Every source column is met once in all.** -/
theorem sum_columnTotal_targets {a : Nat} (ha : a < r.source.columns) :
    ∑ i ∈ Finset.range r.target.columns, r.columnTotal i a = 1 := by
  have hrun := columnRun hm hn
  have h0 := (columnSeam_at hn hn).1
  have hm' : (0 : Int) < r.source.columns := by omega
  unfold columnTotal
  rw [columnOverlaps_eq, columnSpans_eq hn, hrun.sum_total_targets (fun c _ => by push_cast; ring),
    columnSeam_last hn]
  generalize r.columnSeam 0 = s at h0
  -- the run covers a turn of columns, and the one at its beginning a second time at its end
  have hsub : Finset.Icc s.right (s.shift r.source.columns).left ⊆
      Finset.Icc s.right (s.right + r.source.columns) :=
    Finset.Icc_subset_Icc le_rfl (by have := h0.left_le_right; simp only [Seam.shift]; omega)
  have hturn : s.right ∈ Finset.Icc s.right (s.right + r.source.columns) ∧
      s.right + r.source.columns ∈ Finset.Icc s.right (s.right + (r.source.columns : Int)) := by
    simp only [Finset.mem_Icc]
    omega
  have hfold : r.foldColumn (s.right + r.source.columns) = r.foldColumn s.right := by
    unfold foldColumn
    rw [Int.add_emod_right]
  have hpart : ∀ k ∈ Finset.Icc s.right (s.right + (r.source.columns : Int)),
      (if r.foldColumn k = a then (s.shift r.source.columns).passed k 1 - s.passed k 1 else 0) =
        (if k ∈ Finset.Ico s.right (s.right + (r.source.columns : Int)) then
          (if r.foldColumn k = a then 1 else 0) else 0)
        + (if k = s.right + r.source.columns then
          (if r.foldColumn s.right = a then s.before else 0) else 0)
        - (if k = s.right then (if r.foldColumn s.right = a then s.before else 0) else 0) := by
    intro k _
    rw [s.passed_shift_sub hm']
    split_ifs <;> simp_all
  have hout : ∀ k ∈ Finset.Icc s.right (s.right + (r.source.columns : Int)),
      k ∉ Finset.Icc s.right (s.shift r.source.columns).left →
      (if r.foldColumn k = a then (s.shift r.source.columns).passed k 1 - s.passed k 1 else 0) =
        0 := by
    intro k hk hk'
    rw [Finset.mem_Icc] at hk hk'
    simp only [Seam.shift] at hk'
    rcases h0.joined with h | ⟨h, hb⟩
    · omega
    · have hnot : k ∉ Finset.Ico s.right (s.right + (r.source.columns : Int)) := by
        rw [Finset.mem_Ico]
        omega
      rw [s.passed_shift_sub hm', hb, if_neg hnot, ite_self, ite_self, add_zero, sub_zero, ite_self]
  rw [Finset.sum_subset hsub hout, Finset.sum_congr rfl hpart, Finset.sum_sub_distrib,
    Finset.sum_add_distrib, Finset.sum_ite_mem,
    Finset.inter_eq_right.mpr Finset.Ico_subset_Icc_self, sum_turn hm s.right ha,
    Finset.sum_ite_eq', Finset.sum_ite_eq', if_pos hturn.1, if_pos hturn.2]
  ring

end Totals

end Remap

end Regrid

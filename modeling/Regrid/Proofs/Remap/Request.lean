import Regrid.Proofs.LatLon.Partition
import Regrid.Proofs.Outcome
import Regrid.Remap.Operator

/-!
# What a request asks for

The rows of a range are found among the pairs of bands, before there are cells, and those of a
filter among the entries. Either way the entries that are left are those of the whole operator, in
their order, whose target cell is asked for (`entries_part`). That is a fact about places in lists:
it holds over all scalars, and for every weight.
-/

namespace Regrid

/-! ## Filters -/

namespace CellFilter

/-- Whether a filter keeps a cell. A test that fails keeps nothing. -/
def keeps : CellFilter → Nat → Bool
  | mask t, b => t.values.getD b false
  | test holds, b => (holds b).toOption.getD false

/-- A test chooses what it keeps, if it does not fail on a cell. -/
theorem chosen_test {n : Nat} {holds : Nat → Except Error Bool} {chosen : Array Bool}
    (h : (test holds).chosen n = .ok chosen) :
    chosen = ((List.range n).map (test holds).keeps).toArray := by
  obtain ⟨bs, hbs, hchosen⟩ := bind_eq_ok.mp h
  have hkept : ∀ b ∈ List.range n, holds b = .ok ((test holds).keeps b) := by
    intro b hb
    obtain ⟨kept, hkept⟩ := (mapM_eq_ok hbs).1 b hb
    rw [keeps, hkept]
    rfl
  rw [mapM_ok hkept] at hbs
  rw [← Except.ok.inj hchosen, ← Except.ok.inj hbs]

/-- A mask chooses its cells, if it is one of as many. -/
theorem chosen_mask {n : Nat} {t : Tensor Bool} {chosen : Array Bool}
    (h : (mask t).chosen n = .ok chosen) : t.shape = [n] ∧ chosen = t.values := by
  rw [CellFilter.chosen] at h
  split at h
  · exact ⟨‹_›, (Except.ok.inj h).symm⟩
  · exact absurd h error_ne_ok

/-- A mask has a value for each of its places. -/
def Filled : CellFilter → Prop
  | mask t => t.values.size = Tensor.extent t.shape
  | test _ => True

/-- The cells that are chosen are those that the filter keeps. -/
theorem getD_chosen {n : Nat} {f : CellFilter} {chosen : Array Bool} (h : f.chosen n = .ok chosen)
    {b : Nat} (hb : b < n) : chosen.getD b false = f.keeps b := by
  cases f with
  | mask t => rw [(chosen_mask h).2, keeps]
  | test holds =>
    rw [chosen_test h]
    simp [hb]

/-- Every cell is chosen or not. -/
theorem size_chosen {n : Nat} {f : CellFilter} (hf : f.Filled) {chosen : Array Bool}
    (h : f.chosen n = .ok chosen) : chosen.size = n := by
  cases f with
  | mask t =>
    obtain ⟨hshape, rfl⟩ := chosen_mask h
    have hextent : Tensor.extent [n] = n := Nat.one_mul n
    exact hf.trans (hshape ▸ hextent)
  | test holds => rw [chosen_test h, List.size_toArray, List.length_map, List.length_range]

theorem size_chosenBy {n : Nat} {filter : Option CellFilter} (hfilter : ∀ f ∈ filter, f.Filled)
    {chosen : Array Bool} (h : chosenBy n filter = .ok chosen) : chosen.size = n := by
  cases filter with
  | none => rw [← Except.ok.inj h, Array.size_replicate]
  | some f => exact size_chosen (hfilter f rfl) h

theorem getD_chosenBy {n : Nat} {filter : Option CellFilter} {chosen : Array Bool}
    (h : chosenBy n filter = .ok chosen) {b : Nat} (hb : b < n) :
    chosen.getD b false = filter.all fun f => f.keeps b := by
  cases filter with
  | none =>
    rw [← Except.ok.inj h]
    simp [hb]
  | some f => exact getD_chosen h hb

end CellFilter

/-! ## Rows of overlaps -/

theorem Lattice.length_bandSweep {α : Type} [Scalar α] (l : Lattice α) :
    ∀ (ps : List α) (j : Nat), (l.bandSweep j ps).length = ps.length
  | [], _ => rfl
  | p :: ps, j => congrArg Nat.succ (length_bandSweep l ps (l.bandSeam p j).2)

theorem ColumnCursor.length_sweep {α : Type} [Scalar α] (width : α) :
    ∀ (ps : List α) (c : ColumnCursor α), (c.sweep width ps).length = ps.length
  | [], _ => rfl
  | p :: ps, c => congrArg Nat.succ (length_sweep width ps (c.seam width p).2)

namespace Remap

variable {α : Type} [Scalar α] {r : Remap α}

theorem length_bandSpans (hrows : 0 < r.target.rows) : r.bandSpans.length = r.target.rows := by
  unfold bandSpans bandSeams Span.ofSeams
  simp only [List.length_zipWith, List.length_tail, List.length_append, List.length_cons,
    List.length_nil, Lattice.length_bandSweep, List.length_map, List.length_range]
  omega

theorem length_columnSpans (r : Remap α) : r.columnSpans.length = r.target.columns := by
  have hlength : r.columnSeams.length = r.target.columns := by
    unfold columnSeams
    rw [ColumnCursor.length_sweep, List.length_map, List.length_range]
  unfold columnSpans
  rw [← hlength]
  cases r.columnSeams with
  | nil => rfl
  | cons s ss => simp [Span.ofSeams]

theorem target_of_mem_bandOverlaps (hrows : 0 < r.target.rows) {o : Overlap α}
    (ho : o ∈ r.bandOverlaps) : o.target < r.target.rows := by
  simp only [bandOverlaps, List.mem_flatMap, List.mem_filter, List.mem_map] at ho
  obtain ⟨⟨s, j⟩, hs, ⟨k, -, rfl⟩, -⟩ := ho
  rw [← length_bandSpans hrows]
  exact (List.mem_zipIdx' hs).1

theorem target_of_mem_columnOverlaps {o : Overlap α} (ho : o ∈ r.columnOverlaps) :
    o.target < r.target.columns := by
  simp only [columnOverlaps, List.mem_flatMap, List.mem_filter, List.mem_map] at ho
  obtain ⟨⟨s, i⟩, hs, ⟨k, -, rfl⟩, -⟩ := ho
  rw [← length_columnSpans r]
  exact (List.mem_zipIdx' hs).1

theorem source_of_mem_columnOverlaps (hcolumns : 0 < r.source.columns) {o : Overlap α}
    (ho : o ∈ r.columnOverlaps) : o.source < r.source.columns := by
  simp only [columnOverlaps, List.mem_flatMap, List.mem_filter, List.mem_map] at ho
  obtain ⟨⟨s, i⟩, -, ⟨k, -, rfl⟩, -⟩ := ho
  have hnonneg := Int.emod_nonneg k (Int.natCast_ne_zero.mpr hcolumns.ne')
  have hlt := Int.emod_lt_of_pos k (Int.natCast_pos.mpr hcolumns)
  show (k % r.source.columns).toNat < r.source.columns
  omega

theorem overlaps_none (r : Remap α) : r.overlaps none = r.cellOverlaps r.bandOverlaps := by
  unfold overlaps inRows
  simp

/-- An overlap of cells is one of bands and one of columns. -/
theorem exists_of_mem_overlaps {o : Overlap α} (ho : o ∈ r.overlaps none) :
    ∃ b ∈ r.bandOverlaps, ∃ c ∈ r.columnOverlaps,
      o = ⟨b.target * r.target.columns + c.target, b.source * r.source.columns + c.source,
        b.amount * c.amount⟩ := by
  rw [overlaps_none, cellOverlaps] at ho
  obtain ⟨b, hb, ho⟩ := List.mem_flatMap.mp ho
  obtain ⟨c, hc, rfl⟩ := List.mem_map.mp ho
  exact ⟨b, hb, c, hc, rfl⟩

/-- A test of the parts of a list that looks at what they come from can be made of that. -/
theorem filter_flatMap_of_source {β γ : Type} {f : β → List γ} {p : γ → Bool} {q : β → Bool}
    (h : ∀ x, ∀ y ∈ f x, p y = q x) (xs : List β) :
    (xs.flatMap f).filter p = (xs.filter q).flatMap f := by
  induction xs with
  | nil => rfl
  | cons x xs ih =>
    rw [List.flatMap_cons, List.filter_append, ih, List.filter_cons]
    cases hx : q x with
    | true =>
      rw [if_pos rfl, List.flatMap_cons, List.filter_eq_self.mpr fun y hy => (h x y hy).trans hx]
    | false =>
      rw [if_neg Bool.false_ne_true, List.filter_eq_nil_iff.mpr fun y hy => by simp [h x y hy, hx],
        List.nil_append]

/-- **The overlaps of a range** are those of the cells in its rows. -/
theorem overlaps_eq_filter (r : Remap α) (rows : Option (Int × Int)) :
    r.overlaps rows =
      (r.overlaps none).filter fun o => inRows rows (o.target / r.target.columns) := by
  rw [overlaps_none]
  refine (filter_flatMap_of_source (fun b o ho => ?_) _).symm
  obtain ⟨c, hc, rfl⟩ := List.mem_map.mp ho
  rw [Lattice.div_cell (target_of_mem_columnOverlaps hc)]

/-! ## Entries -/

theorem row_lt_of_mem_operator (hrows : 0 < r.target.rows) {weights : Array α}
    {rows : Option (Int × Int)} {e : Entry α} (he : e ∈ (r.operator weights rows).entries) :
    e.row < r.target.size := by
  simp only [operator, overlaps, cellOverlaps, List.mem_map, List.mem_flatMap,
    List.mem_filter] at he
  obtain ⟨o, ⟨b, ⟨hb, -⟩, c, hc, rfl⟩, rfl⟩ := he
  exact Lattice.cell_lt_size (target_of_mem_bandOverlaps hrows hb) (target_of_mem_columnOverlaps hc)

theorem entries_operator (r : Remap α) (weights : Array α) (rows : Option (Int × Int)) :
    (r.operator weights rows).entries = (r.overlaps rows).map (r.entryOf weights) := by
  rw [operator]

/-- The entries of a range are those in its rows. -/
theorem entries_operator_rows (r : Remap α) (weights : Array α) (rows : Option (Int × Int)) :
    (r.operator weights rows).entries = (r.operator weights none).entries.filter
      fun e => inRows rows (e.row / r.target.columns) := by
  rw [entries_operator, entries_operator, overlaps_eq_filter, List.filter_map]
  exact congrArg (List.map _) (List.filter_congr fun o _ => rfl)

/-- Whether a filter and a range of rows ask for a target cell. -/
def asksFor (r : Remap α) (filter : Option CellFilter) (rows : Option (Int × Int)) (b : Nat) :
    Bool :=
  filter.all (fun f => f.keeps b) && inRows rows (b / r.target.columns)

/-- **The entries of the chosen cells of a range** are those of the operator that are asked for. -/
theorem entries_part (hrows : 0 < r.target.rows) (weights : Array α) {filter : Option CellFilter}
    {chosen : Array Bool} (hchosen : CellFilter.chosenBy r.target.size filter = .ok chosen)
    (rows : Option (Int × Int)) : (r.part weights rows chosen).entries =
      (r.operator weights none).entries.filter fun e => r.asksFor filter rows e.row := by
  have hkept : ∀ e ∈ (r.operator weights none).entries,
      (chosen.getD e.row false && inRows rows (e.row / r.target.columns)) =
        r.asksFor filter rows e.row := by
    intro e he
    rw [CellFilter.getD_chosenBy hchosen (row_lt_of_mem_operator hrows he), asksFor]
  simp only [part]
  rw [entries_operator_rows, List.filter_filter, List.filter_congr hkept]

/-! ## Results -/

omit [Scalar α] in
theorem checkSize_eq_ok {xs : Array α} {size : Nat} {name : String} :
    checkSize xs size name = .ok () ↔ xs.size = size := by
  unfold checkSize
  split <;> simp_all

omit [Scalar α] in
theorem checkShape_eq_ok {rows cols : Nat} :
    r.checkShape rows cols = .ok () ↔ rows = r.target.size ∧ cols = r.source.size := by
  unfold checkShape
  split <;> simp_all

/-- **When an operator can be built,** and which one is. -/
theorem build_eq_ok {q : OperatorRequest α} {part : SparseMatrix α} {bad : List (Nat × α)} :
    r.build q = .ok (part, bad) ↔ (q.weights.getD r.unitWeights).size = r.target.size ∧
      ∃ chosen, CellFilter.chosenBy r.target.size q.filter = .ok chosen ∧
        r.part (q.weights.getD r.unitWeights) q.rows chosen = part ∧
        r.faults q (q.weights.getD r.unitWeights) chosen part = .ok bad := by
  unfold build
  simp only [bind_eq_ok]
  constructor
  · rintro ⟨⟨⟩, hweights, chosen, hchosen, bad', hbad, heq⟩
    cases heq
    exact ⟨checkSize_eq_ok.mp hweights, chosen, hchosen, rfl, hbad⟩
  · rintro ⟨hweights, chosen, hchosen, rfl, hbad⟩
    exact ⟨(), checkSize_eq_ok.mpr hweights, chosen, hchosen, bad, hbad, rfl⟩

theorem size_weights {weights : Option (Array α)} :
    (weights.getD r.unitWeights).size = r.target.size ↔ ∀ w ∈ weights, w.size = r.target.size := by
  cases weights with
  | none => exact iff_of_true Array.size_replicate nofun
  | some w => simp

/-- **Building a range of rows** from weights gives their operator and reports nothing. -/
theorem build_rows (hrows : 0 < r.target.rows) {weights : Option (Array α)}
    (hw : ∀ w ∈ weights, w.size = r.target.size) (rows : Option (Int × Int)) :
    r.build { weights := weights, rows := rows } =
      .ok (r.operator (weights.getD r.unitWeights) rows, []) := by
  refine build_eq_ok.mpr ⟨size_weights.mpr hw, _, rfl, ?_, rfl⟩
  have hkept : (r.operator (weights.getD r.unitWeights) rows).entries.filter
      (fun e => (Array.replicate r.target.size true).getD e.row false) =
        (r.operator (weights.getD r.unitWeights) rows).entries := by
    refine List.filter_eq_self.mpr fun e he => ?_
    simp [row_lt_of_mem_operator hrows he]
  rw [part, hkept]

end Remap

end Regrid

import Regrid.Proofs.Range
import Regrid.Proofs.Remap.Conservation
import Regrid.Proofs.Sparse.Buffered
import Regrid.Proofs.Sparse.RowCheck

/-!
# Adding an operator to a matrix

An operator is added to a matrix in memory (the `M` of `Hntr.matrix`) as a whole or not at all: a
failure leaves the matrix as it is (`addOperator_run_error`), and otherwise the entries that are
asked for stand behind the others (`addOperator_run_ok`). The check of the row sums looks at the
same target cells, although it finds them in another way: as a part of the sequence of cells, and
not by their rows (`getD_builtCells`). What it reports are the rows among these whose sum is too far
from the weight (`Reports`). All entries of such a cell are there, so over exact scalars they sum to
its weight and nothing is reported (`faults_eq_nil`).
-/

namespace Regrid

open Attempt

namespace Remap

/-! ## The cells that are checked -/

section Cells

variable {α : Type} {r : Remap α}

/-- **The cells that are checked** are the chosen ones of the rows that are built. -/
theorem getD_builtCells (hcolumns : 0 < r.target.columns) {rows : Option (Int × Int)}
    (hrows : ∀ w ∈ rows, 0 ≤ w.1 ∧ 0 ≤ w.2) (chosen : Array Bool) {b : Nat}
    (hb : b < r.target.size) : (r.builtCells rows chosen).getD b false =
      (chosen.getD b false && inRows rows (b / r.target.columns)) := by
  cases rows with
  | none => simp [builtCells, inRows]
  | some w =>
    obtain ⟨start, stop⟩ := w
    obtain ⟨hstart, hstop⟩ := hrows _ rfl
    have hpos : (0 : Int) < r.target.columns := Int.natCast_pos.mpr hcolumns
    have hlow : boundedPlace r.target.size (start * r.target.columns) ≤ b ↔
        start ≤ (b / r.target.columns : Nat) := by
      rw [boundedPlace_le_iff (Int.mul_nonneg hstart hpos.le) hb, Int.natCast_ediv,
        Int.le_ediv_iff_mul_le hpos]
    have hhigh : b < boundedPlace r.target.size (stop * r.target.columns) ↔
        ((b / r.target.columns : Nat) : Int) < stop := by
      rw [lt_boundedPlace_iff (Int.mul_nonneg hstop hpos.le) hb, Int.natCast_ediv,
        Int.ediv_lt_iff_lt_mul hpos]
    have hcell : inRows (some (start, stop)) (b / r.target.columns) =
        (decide (boundedPlace r.target.size (start * r.target.columns) ≤ b) &&
          decide (b < boundedPlace r.target.size (stop * r.target.columns))) := by
      simp only [inRows, Option.all_some, hlow, hhigh]
    rw [hcell]
    simp only [builtCells, Array.getD_eq_getD_getElem?, List.getElem?_toArray, List.getElem?_map,
      List.getElem?_zipIdx, Array.getElem?_toList]
    cases chosen[b]? <;> simp [Bool.and_assoc]

theorem size_builtCells (r : Remap α) (rows : Option (Int × Int)) (chosen : Array Bool) :
    (r.builtCells rows chosen).size = chosen.size := by
  cases rows <;> simp [builtCells]

/-- The cells that are checked are those that are asked for. -/
theorem getD_builtCells_chosenBy (hcolumns : 0 < r.target.columns) {q : OperatorRequest α}
    (hrows : ∀ w ∈ q.rows, 0 ≤ w.1 ∧ 0 ≤ w.2) {chosen : Array Bool}
    (hchosen : CellFilter.chosenBy r.target.size q.filter = .ok chosen) {b : Nat}
    (hb : b < r.target.size) :
    (r.builtCells q.rows chosen).getD b false = r.asksFor q.filter q.rows b := by
  rw [getD_builtCells hcolumns hrows chosen hb, CellFilter.getD_chosenBy hchosen hb, asksFor]

end Cells

/-! ## What is reported -/

section Reports

variable {α : Type} [Scalar α] {r : Remap α} {q : OperatorRequest α}

/-- What a request reports of a matrix that it adds: by ascending cell, the cells it asks for whose
row sum is further than the tolerance from their weight, with that sum. -/
structure Reports (r : Remap α) (q : OperatorRequest α) (part : SparseMatrix α)
    (bad : List (Nat × α)) : Prop where
  ascending : (bad.map Prod.fst).Pairwise (· < ·)
  mem_iff : ∀ b s, (b, s) ∈ bad ↔ ∃ t ∈ q.tolerance, b < r.target.size ∧
    r.asksFor q.filter q.rows b = true ∧ s = part.rowSums.values.getD b 0 ∧
    t < Scalar.abs (s - (q.weights.getD r.unitWeights).getD b 0)

/-- **The check of a request** reports what the request asks for. -/
theorem reports_of_faults (hrows : ∀ w ∈ q.rows, 0 ≤ w.1 ∧ 0 ≤ w.2)
    (hweights : (q.weights.getD r.unitWeights).size = r.target.size) {chosen : Array Bool}
    (hchosen : CellFilter.chosenBy r.target.size q.filter = .ok chosen) {part : SparseMatrix α}
    (hpart : part.rows = r.target.size) {bad : List (Nat × α)}
    (hbad : r.faults q (q.weights.getD r.unitWeights) chosen part = .ok bad) :
    r.Reports q part bad := by
  unfold faults at hbad
  cases htol : q.tolerance with
  | none =>
    rw [htol] at hbad
    obtain rfl := Except.ok.inj hbad
    exact ⟨List.Pairwise.nil, fun b s => by simp [htol]⟩
  | some tolerance =>
    rw [htol] at hbad
    have hlisted := SparseMatrix.checkRowSums_eq (m := part) (.each (hweights.trans hpart.symm))
      tolerance (SparseMatrix.shape_of_checkRowSums hbad)
    obtain rfl := Except.ok.inj (hbad.symm.trans hlisted)
    refine ⟨SparseMatrix.rowFaults_ascending, fun b s => ?_⟩
    have hlooks (hb : b < r.target.size) :
        SparseMatrix.looksAt (some (Tensor.ofArray (r.builtCells q.rows chosen))) b =
          r.asksFor q.filter q.rows b :=
      getD_builtCells_chosenBy (Nat.pos_of_mul_pos_left (Nat.zero_lt_of_lt hb)) hrows hchosen hb
    rw [SparseMatrix.mem_rowFaults, hpart]
    constructor
    · rintro ⟨hb, hasked, rfl, hfar⟩
      exact ⟨tolerance, htol, hb, hlooks hb ▸ hasked, rfl, hfar⟩
    · rintro ⟨t, ht, hb, hasked, rfl, hfar⟩
      obtain rfl := Option.some.inj (htol.symm.trans ht)
      exact ⟨hb, (hlooks hb).trans hasked, rfl, hfar⟩

end Reports

/-! ## Row sums -/

section Sums

variable {r : Remap Rat} (hs : r.source.Partition) (ht : r.target.Partition)
include hs ht

theorem part_inBounds (weights : Array Rat) {filter : Option CellFilter} {chosen : Array Bool}
    (hchosen : CellFilter.chosenBy r.target.size filter = .ok chosen) (rows : Option (Int × Int)) :
    (r.part weights rows chosen).InBounds := by
  intro e he
  rw [entries_part ht.rows_pos weights hchosen] at he
  exact operator_inBounds hs ht weights e (List.mem_filter.mp he).1

/-- **The row of a cell that is asked for** sums to its weight: none of its entries is left out. -/
theorem getD_rowSums_part (weights : Array Rat) {filter : Option CellFilter} {chosen : Array Bool}
    (hchosen : CellFilter.chosenBy r.target.size filter = .ok chosen) {rows : Option (Int × Int)}
    {b : Nat} (hb : b < r.target.size) (hasked : r.asksFor filter rows b = true) :
    (r.part weights rows chosen).rowSums.values.getD b 0 = weights.getD b 0 := by
  have hrow : (r.part weights rows chosen).entries.filter (fun e => e.row = b) =
      (r.operator weights none).entries.filter fun e => e.row = b := by
    rw [entries_part ht.rows_pos weights hchosen, List.filter_filter]
    refine List.filter_congr fun e _ => ?_
    by_cases he : e.row = b
    · simp [he, hasked]
    · simp [he]
  have hpart := part_inBounds hs ht weights hchosen rows
  calc
    _ = (((r.part weights rows chosen).entries.filter fun e => e.row = b).map Entry.value).sum :=
      (SparseMatrix.getD_rowSums hpart hb).trans (SparseMatrix.sum_entries_row hpart b).symm
    _ = (((r.operator weights none).entries.filter fun e => e.row = b).map Entry.value).sum := by
      rw [hrow]
    _ = weights.getD b 0 := by
      rw [SparseMatrix.sum_entries_row (operator_inBounds hs ht weights)]
      exact sum_dense_sources hs ht weights hb

omit hs ht in
/-- A check has a result if every cell is chosen or not. -/
theorem exists_faults {q : OperatorRequest Rat} {weights : Array Rat}
    (hweights : weights.size = r.target.size) {chosen : Array Bool}
    (hsize : chosen.size = r.target.size) :
    ∃ bad, r.faults q weights chosen (r.part weights q.rows chosen) = .ok bad := by
  unfold faults
  cases q.tolerance with
  | none => exact ⟨[], rfl⟩
  | some tolerance =>
    refine ⟨_, SparseMatrix.checkRowSums_eq (.each hweights) tolerance ?_⟩
    intro t ht
    rw [← Option.some.inj ht]
    exact congrArg (fun n => [n]) ((size_builtCells r q.rows chosen).trans hsize)

/-- **The check of a request reports nothing.** -/
theorem faults_eq_nil {q : OperatorRequest Rat} (htolerance : ∀ t ∈ q.tolerance, 0 ≤ t)
    (hrows : ∀ w ∈ q.rows, 0 ≤ w.1 ∧ 0 ≤ w.2)
    (hweights : (q.weights.getD r.unitWeights).size = r.target.size) {chosen : Array Bool}
    (hchosen : CellFilter.chosenBy r.target.size q.filter = .ok chosen) {bad : List (Nat × Rat)}
    (hbad : r.faults q (q.weights.getD r.unitWeights) chosen
      (r.part (q.weights.getD r.unitWeights) q.rows chosen) = .ok bad) : bad = [] := by
  have hreports : r.Reports q (r.part (q.weights.getD r.unitWeights) q.rows chosen) bad :=
    reports_of_faults hrows hweights hchosen rfl hbad
  refine List.eq_nil_iff_forall_not_mem.mpr fun x hx => ?_
  obtain ⟨t, hmemt, hb, hasked, hsum, hfar⟩ := (hreports.mem_iff x.1 x.2).mp hx
  rw [hsum, getD_rowSums_part hs ht _ hchosen hb hasked, sub_self] at hfar
  exact absurd hfar (htolerance t hmemt).not_gt

end Sums

/-! ## Adding -/

section Adding

variable {α : Type} [Scalar α] {r : Remap α} {q : OperatorRequest α} {m : BufferedMatrix α}
  {rows cols : Nat} {ts : List (Triplet α)}

theorem chunkFor_eq_ok {chunk : BufferedMatrix α} {bad : List (Nat × α)} :
    r.chunkFor q rows cols = .ok (chunk, bad) ↔ (rows = r.target.size ∧ cols = r.source.size) ∧
      ∃ part, r.build q = .ok (part, bad) ∧ BufferedMatrix.ofMatrix part = .ok chunk := by
  unfold chunkFor
  simp only [bind_eq_ok]
  constructor
  · rintro ⟨⟨⟩, hshape, ⟨part, bad'⟩, hpart, chunk', hof, heq⟩
    cases heq
    exact ⟨checkShape_eq_ok.mp hshape, part, hpart, hof⟩
  · rintro ⟨hshape, part, hpart, hof⟩
    exact ⟨(), checkShape_eq_ok.mpr hshape, (part, bad), hpart, chunk, hof, rfl⟩

theorem addOperator_run_error (h : m.Holds rows cols ts) {e : Error}
    (hchunk : r.chunkFor q rows cols = .error e) : (r.addOperator q).run m = .error e m := by
  unfold addOperator
  rw [run_bind_ok (EStateM.run_get m), h.rows_eq, h.cols_eq,
    run_bind_error (run_liftM_error hchunk m)]

/-- **The entries of a request** that can be met are added behind those that are there. -/
theorem addOperator_run_ok (h : m.Holds rows cols ts) {chunk : BufferedMatrix α}
    {bad : List (Nat × α)} (hchunk : r.chunkFor q rows cols = .ok (chunk, bad)) :
    ∃ part m', r.build q = .ok (part, bad) ∧ (r.addOperator q).run m = .ok bad m' ∧
      m'.Holds rows cols (ts ++ part.entries.map Triplet.ofEntry) := by
  obtain ⟨⟨rfl, rfl⟩, part, hpart, hof⟩ := chunkFor_eq_ok.mp hchunk
  obtain ⟨-, chosen, -, rfl, -⟩ := build_eq_ok.mp hpart
  obtain ⟨chunk', hof', hholds⟩ := BufferedMatrix.ofMatrix_eq h.rows_lt h.cols_lt
    (BufferedMatrix.inBounds_of_ofMatrix h.rows_lt h.cols_lt hof)
  obtain rfl := Except.ok.inj (hof.symm.trans hof')
  obtain ⟨m', hrun, hm'⟩ := BufferedMatrix.append_run h hholds
  refine ⟨_, m', hpart, ?_, hm'⟩
  unfold addOperator
  rw [run_bind_ok (EStateM.run_get m), h.rows_eq, h.cols_eq, run_bind_ok (run_liftM_ok hchunk m)]
  simp only
  rw [run_bind_ok hrun]
  rfl

/-- What a run reports is what the request reports. -/
theorem exists_chunkFor_of_run (h : m.Holds rows cols ts) {bad : List (Nat × α)}
    {m' : BufferedMatrix α} (hrun : (r.addOperator q).run m = .ok bad m') :
    ∃ chunk, r.chunkFor q rows cols = .ok (chunk, bad) := by
  cases hchunk : r.chunkFor q rows cols with
  | error e =>
    rw [addOperator_run_error h hchunk] at hrun
    cases hrun
  | ok result =>
    obtain ⟨chunk, bad'⟩ := result
    obtain ⟨part, m'', -, hrun', -⟩ := addOperator_run_ok h hchunk
    rw [hrun'] at hrun
    cases hrun
    exact ⟨chunk, rfl⟩

/-- What is added are entries of the whole operator, which can be built. -/
theorem exists_build_full (hrows : 0 < r.target.rows) {part : SparseMatrix α}
    {bad : List (Nat × α)} (hq : r.build q = .ok (part, bad)) :
    ∃ full, r.build { weights := q.weights } = .ok (full, []) ∧ part = { full with
      entries := full.entries.filter fun e => r.asksFor q.filter q.rows e.row } := by
  obtain ⟨hweights, chosen, hchosen, rfl, -⟩ := build_eq_ok.mp hq
  refine ⟨_, build_rows hrows (size_weights.mp hweights) none, ?_⟩
  rw [← entries_part hrows _ hchosen q.rows]
  rfl

/-- What is reported is what the entries that are added give rise to. -/
theorem reports_of_build (hrows : ∀ w ∈ q.rows, 0 ≤ w.1 ∧ 0 ≤ w.2) {part : SparseMatrix α}
    {bad : List (Nat × α)} (hq : r.build q = .ok (part, bad)) : r.Reports q part bad := by
  obtain ⟨hweights, chosen, hchosen, rfl, hbad⟩ := build_eq_ok.mp hq
  exact reports_of_faults hrows hweights hchosen rfl hbad

/-- **Filters that agree are the same filter:** a mask, and a test of the cells that it has. -/
theorem addOperator_test_eq_mask (r : Remap α) (q : OperatorRequest α) {t : Tensor Bool}
    (hshape : t.shape = [r.target.size]) (hsize : t.values.size = r.target.size)
    {holds : Nat → Except Error Bool}
    (hagree : ∀ b, b < r.target.size → holds b = .ok (t.values.getD b false)) :
    r.addOperator { q with filter := some (.test holds) } =
      r.addOperator { q with filter := some (.mask t) } := by
  have hall : (List.range r.target.size).mapM holds =
      .ok ((List.range r.target.size).map fun b => t.values.getD b false) :=
    mapM_ok fun b hb => hagree b (List.mem_range.mp hb)
  have hchosen : CellFilter.chosenBy r.target.size (some (.test holds)) =
      CellFilter.chosenBy r.target.size (some (.mask t)) := by
    rw [CellFilter.chosenBy, CellFilter.chosenBy, CellFilter.chosen, CellFilter.chosen,
      if_pos hshape, hall, bind_ok, ← hsize, map_range_getD]
    rfl
  unfold addOperator chunkFor build
  simp only [hchosen]
  rfl

end Adding

/-! ## Requests over exact scalars -/

/-- A request with a tolerance and a range that are not negative, and with a whole mask. -/
structure SoundRequest (q : OperatorRequest Rat) : Prop where
  tolerance : ∀ t ∈ q.tolerance, 0 ≤ t
  rows : ∀ w ∈ q.rows, 0 ≤ w.1 ∧ 0 ≤ w.2
  filter : ∀ f ∈ q.filter, f.Filled

section Sound

variable {r : Remap Rat} {q : OperatorRequest Rat}
variable (hs : r.source.Partition) (ht : r.target.Partition) (hq : SoundRequest q)
include hs ht hq

/-- **A request that is met reports nothing.** -/
theorem faults_of_chunkFor {rows cols : Nat} {chunk : BufferedMatrix Rat} {bad : List (Nat × Rat)}
    (h : r.chunkFor q rows cols = .ok (chunk, bad)) : bad = [] := by
  obtain ⟨-, part, hpart, -⟩ := chunkFor_eq_ok.mp h
  obtain ⟨hweights, chosen, hchosen, rfl, hbad⟩ := build_eq_ok.mp hpart
  exact faults_eq_nil hs ht hq.tolerance hq.rows hweights hchosen hbad

/-- **A request is met** if the weights are of the right size and the filter has a result. -/
theorem exists_chunkFor (hrows : r.target.size < 2 ^ 63) (hcols : r.source.size < 2 ^ 63)
    (hweights : (q.weights.getD r.unitWeights).size = r.target.size) {chosen : Array Bool}
    (hchosen : CellFilter.chosenBy r.target.size q.filter = .ok chosen) :
    ∃ chunk, r.chunkFor q r.target.size r.source.size = .ok (chunk, []) := by
  obtain ⟨bad, hbad⟩ := exists_faults (q := q) hweights
    (CellFilter.size_chosenBy hq.filter hchosen)
  obtain rfl := faults_eq_nil hs ht hq.tolerance hq.rows hweights hchosen hbad
  have hpart := part_inBounds hs ht (q.weights.getD r.unitWeights) hchosen q.rows
  obtain ⟨chunk, hof, -⟩ := BufferedMatrix.ofMatrix_eq hrows hcols hpart
  exact ⟨chunk, chunkFor_eq_ok.mpr
    ⟨⟨rfl, rfl⟩, _, build_eq_ok.mpr ⟨hweights, chosen, hchosen, rfl, hbad⟩, hof⟩⟩

end Sound

/-- **Adding an operator** to a matrix in memory fails, and leaves the matrix as it is, or puts
behind its entries those of the whole operator whose target cells a filter and a range ask for, in
their order, and reports the cells that are asked for whose row sum is too far from their weight. A
mask and a test with its values do the same. Over exact scalars a request fails just for a matrix or
weights of another size or a filter without a result; the check looks at just the cells that are
asked for, and reports none. -/
theorem addOperator_appends :
    (∀ {α : Type} [Scalar α] {r : Remap α}, 0 < r.target.rows →
      ∀ {m : BufferedMatrix α} {rows cols ts}, m.Holds rows cols ts → ∀ q : OperatorRequest α,
        (∃ e, (r.addOperator q).run m = .error e m) ∨
          ∃ bad m' full, (r.addOperator q).run m = .ok bad m' ∧
            r.build { weights := q.weights } = .ok (full, []) ∧
            m'.Holds rows cols (ts ++ (full.entries.filter fun e =>
              r.asksFor q.filter q.rows e.row).map Triplet.ofEntry) ∧
            ((∀ w ∈ q.rows, 0 ≤ w.1 ∧ 0 ≤ w.2) → r.Reports q { full with
              entries := full.entries.filter fun e => r.asksFor q.filter q.rows e.row } bad)) ∧
    (∀ {α : Type} [Scalar α] (r : Remap α) (q : OperatorRequest α) (t : Tensor Bool) holds,
      t.shape = [r.target.size] → t.values.size = r.target.size →
      (∀ b, b < r.target.size → holds b = .ok (t.values.getD b false)) →
        r.addOperator { q with filter := some (.test holds) } =
          r.addOperator { q with filter := some (.mask t) }) ∧
    ∀ {r : Remap Rat}, r.source.Partition → r.target.Partition →
      ∀ {m : BufferedMatrix Rat} {rows cols ts}, m.Holds rows cols ts →
      ∀ {q : OperatorRequest Rat}, SoundRequest q →
        (∀ bad m', (r.addOperator q).run m = .ok bad m' → bad = []) ∧
        ((∃ m', (r.addOperator q).run m = .ok [] m') ↔
          (rows = r.target.size ∧ cols = r.source.size) ∧
          (∀ w ∈ q.weights, w.size = r.target.size) ∧
          ∃ chosen, CellFilter.chosenBy r.target.size q.filter = .ok chosen) ∧
        ∀ chosen, CellFilter.chosenBy r.target.size q.filter = .ok chosen →
          ∀ b, b < r.target.size →
            (r.builtCells q.rows chosen).getD b false = r.asksFor q.filter q.rows b := by
  refine ⟨fun {α _ r} hrows m rows cols ts h q => ?_, fun r q t holds hshape hsize hagree =>
    addOperator_test_eq_mask r q hshape hsize hagree,
    fun {r} hs ht m rows cols ts h q hq => ⟨fun bad m' hrun => ?_, ⟨?_, ?_⟩, ?_⟩⟩
  · cases hchunk : r.chunkFor q rows cols with
    | error e => exact Or.inl ⟨e, addOperator_run_error h hchunk⟩
    | ok result =>
      obtain ⟨part, m', hpart, hrun, hm'⟩ := addOperator_run_ok h hchunk
      obtain ⟨full, hfull, rfl⟩ := exists_build_full hrows hpart
      exact Or.inr ⟨result.2, m', full, hrun, hfull, hm', fun hwindow =>
        reports_of_build hwindow hpart⟩
  · obtain ⟨chunk, hchunk⟩ := exists_chunkFor_of_run h hrun
    exact faults_of_chunkFor hs ht hq hchunk
  · rintro ⟨m', hrun⟩
    obtain ⟨chunk, hchunk⟩ := exists_chunkFor_of_run h hrun
    obtain ⟨hshape, part, hpart, -⟩ := chunkFor_eq_ok.mp hchunk
    obtain ⟨hweights, chosen, hchosen, -, -⟩ := build_eq_ok.mp hpart
    exact ⟨hshape, size_weights.mp hweights, chosen, hchosen⟩
  · rintro ⟨⟨rfl, rfl⟩, hweights, chosen, hchosen⟩
    obtain ⟨chunk, hchunk⟩ := exists_chunkFor hs ht hq h.rows_lt h.cols_lt
      (size_weights.mpr hweights) hchosen
    obtain ⟨part, m', -, hrun, -⟩ := addOperator_run_ok h hchunk
    exact ⟨m', hrun⟩
  · exact fun chosen hchosen b hb => getD_builtCells_chosenBy ht.columns_pos hq.rows hchosen hb

/-- Of two rows of two cells the northern one is added, and the mask leaves out its last cell. A
source that ends at the equator covers half of a cell around the globe, which is reported. -/
theorem addOperator_appends_northern :
    let r : Remap Rat := ⟨⟨4, 0, #[-1, 1]⟩, ⟨2, 0, #[-1, 0, 1]⟩⟩
    let half : Remap Rat := ⟨⟨1, 0, #[-1, 0]⟩, ⟨1, 0, #[-1, 1]⟩⟩
    let q : OperatorRequest Rat := {
      filter := some (.mask ⟨[4], #[true, true, true, false]⟩)
      weights := some #[1, 2, 3, 4]
      tolerance := some 0
      rows := some (1, 2) }
    (∃ m', (r.addOperator q).run (.ofTriplets 4 4 [(0, 0, 5)]) = .ok [] m' ∧
      m'.Holds 4 4 [(0, 0, 5), (2, 0, 3 / 2), (2, 1, 3 / 2)]) ∧
    r.addOperator { q with filter := some (.test fun b => .ok (b != 3)) } = r.addOperator q ∧
    ∃ bad m', (half.addOperator { tolerance := some 0 }).run (.ofTriplets 1 1 []) = .ok bad m' ∧
      (0, 1 / 2) ∈ bad := by
  intro r half q
  have hs : r.source.Partition := ⟨by decide, by decide, rfl, rfl, by decide +kernel⟩
  have ht : r.target.Partition := ⟨by decide, by decide, rfl, rfl, by decide +kernel⟩
  have hq : SoundRequest q :=
    ⟨fun t ht => (Option.some.inj ht).le, fun w hw => Option.some.inj hw ▸ by decide,
      fun f hf => Option.some.inj hf ▸ rfl⟩
  have hm : (BufferedMatrix.ofTriplets 4 4 [(0, 0, (5 : Rat))]).Holds 4 4 [(0, 0, 5)] :=
    ⟨by decide, by decide, by simp [Triplet.Fits], [(0, 0, 5)], [], rfl, rfl⟩
  obtain ⟨happends, hagrees, hexact⟩ := addOperator_appends
  have hweights : ∀ w ∈ q.weights, w.size = r.target.size := fun w hw => Option.some.inj hw ▸ rfl
  obtain ⟨m', hrun⟩ := (hexact hs ht hm hq).2.1.mpr ⟨⟨rfl, rfl⟩, hweights, _, rfl⟩
  have hkept : ∀ b, b < 4 → (b != 3) = (#[true, true, true, false] : Array Bool).getD b false := by
    decide
  have hempty : (BufferedMatrix.ofTriplets 1 1 ([] : List (Triplet Rat))).Holds 1 1 [] :=
    ⟨by decide, by decide, by simp, [], [], rfl, rfl⟩
  refine ⟨⟨m', hrun, ?_⟩, hagrees r q ⟨[4], #[true, true, true, false]⟩ _ rfl rfl
    fun b hb => congrArg Except.ok (hkept b hb), ?_⟩
  · obtain ⟨e, herror⟩ | ⟨bad, m'', full, hrun', hfull, hholds, -⟩ := happends ht.rows_pos hm q
    · rw [herror] at hrun
      cases hrun
    rw [hrun'] at hrun
    cases hrun
    have hbuilt : (r.build { weights := q.weights }).toOption.map (fun x =>
        x.1.entries.filter fun e => r.asksFor q.filter q.rows e.row) =
          some [⟨2, 0, 3 / 2⟩, ⟨2, 1, 3 / 2⟩] := by decide +kernel
    rw [hfull] at hbuilt
    have hadded : (full.entries.filter fun e => r.asksFor q.filter q.rows e.row) =
        [⟨2, 0, 3 / 2⟩, ⟨2, 1, 3 / 2⟩] := Option.some.inj hbuilt
    rw [hadded] at hholds
    exact hholds
  · obtain ⟨e, herror⟩ | ⟨bad, m'', full, hrun', hfull, -, hreports⟩ :=
      happends (r := half) (by decide) hempty { tolerance := some 0 }
    · have hruns : ((half.addOperator { tolerance := some 0 }).resultOn
          (.ofTriplets 1 1 [])).isOk = true := by decide +kernel
      rw [resultOn, herror] at hruns
      cases hruns
    · have hsum : (half.build {}).toOption.map (fun x => (SparseMatrix.rowSums { x.1 with
          entries := x.1.entries.filter fun e => half.asksFor none none e.row }).values.getD 0 0) =
            some (1 / 2) := by decide +kernel
      rw [hfull] at hsum
      exact ⟨bad, m'', hrun', ((hreports nofun).mem_iff 0 (1 / 2)).mpr
        ⟨0, rfl, by decide, rfl, (Option.some.inj hsum).symm, by decide +kernel⟩⟩

end Remap

end Regrid

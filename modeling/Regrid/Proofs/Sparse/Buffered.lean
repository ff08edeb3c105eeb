import Regrid.Proofs.Attempt
import Regrid.Proofs.Number
import Regrid.Proofs.Outcome
import Regrid.Proofs.Sparse.Extended
import Regrid.Sparse.Buffered

/-!
# What a matrix in memory holds

A matrix holds a list of triplets: those of its three columns, and behind them those that wait
(`Holds`). Folding the buffer in changes no triplet (`flush_run`), and each operation has one lemma
that tells the triplets it leaves. An operation that fails leaves the same ones.
-/

namespace Regrid

open Attempt

/-! ## Triplets -/

/-- A row, a column and a value. -/
abbrev Triplet (α : Type) := Int × Int × α

/-- Whether a triplet lies inside a shape. -/
def Triplet.Fits {α : Type} (rows cols : Nat) (t : Triplet α) : Prop :=
  (0 ≤ t.1 ∧ t.1 < rows) ∧ 0 ≤ t.2.1 ∧ t.2.1 < cols

/-- Columns of equal length are those of a list of triplets. -/
theorem Triplet.exists_columns {α : Type} {r c : List Int} {vs : List α}
    (hrc : r.length = c.length) (hcv : c.length = vs.length) :
    ∃ ts : List (Triplet α), ts.map (·.1) = r ∧ ts.map (·.2.1) = c ∧ ts.map (·.2.2) = vs := by
  have hzip : r.length = (c.zip vs).length := by rw [List.length_zip, ← hcv, Nat.min_self, hrc]
  have hrest : (r.zip (c.zip vs)).map Prod.snd = c.zip vs := List.map_snd_zip hzip.ge
  refine ⟨r.zip (c.zip vs), List.map_fst_zip hzip.le, ?_, ?_⟩
  · exact (List.map_map ..).symm.trans
      ((congrArg (List.map Prod.fst) hrest).trans (List.map_fst_zip hcv.le))
  · exact (List.map_map ..).symm.trans
      ((congrArg (List.map Prod.snd) hrest).trans (List.map_snd_zip hcv.ge))

/-- The entry of a triplet. -/
def Triplet.entry {α : Type} (t : Triplet α) : Entry α := ⟨t.1.toNat, t.2.1.toNat, t.2.2⟩

/-- The triplet of an entry. -/
def Triplet.ofEntry {α : Type} (e : Entry α) : Triplet α := (e.row, e.col, e.value)

/-- The matrix of triplets. -/
def Triplet.matrix {α : Type} (rows cols : Nat) (ts : List (Triplet α)) : SparseMatrix α where
  rows := rows
  cols := cols
  entries := ts.map Triplet.entry

theorem Triplet.Fits.entry {α : Type} {rows cols : Nat} {t : Triplet α}
    (h : Triplet.Fits rows cols t) : (Triplet.entry t).row < rows ∧ (Triplet.entry t).col < cols :=
  ⟨(Int.toNat_lt h.1.1).mpr h.1.2, (Int.toNat_lt h.2.1).mpr h.2.2⟩

theorem Triplet.fits_ofEntry {α : Type} {rows cols : Nat} {e : Entry α} (hr : e.row < rows)
    (hc : e.col < cols) : Triplet.Fits rows cols (Triplet.ofEntry e) :=
  ⟨⟨Int.natCast_nonneg _, Int.ofNat_lt.mpr hr⟩, Int.natCast_nonneg _, Int.ofNat_lt.mpr hc⟩

theorem Triplet.inBounds_matrix {α : Type} {rows cols : Nat} {ts : List (Triplet α)}
    (h : ∀ t ∈ ts, Triplet.Fits rows cols t) : (Triplet.matrix rows cols ts).InBounds :=
  List.forall_mem_map.mpr fun t ht => (h t ht).entry

/-- The triplets that merging leaves. -/
def Triplet.merged {α : Type} [Scalar α] (ts : List (Triplet α)) : List (Triplet α) :=
  (SparseMatrix.mergedEntries (ts.map Triplet.entry)).map Triplet.ofEntry

theorem Triplet.matrix_merged {α : Type} [Scalar α] (rows cols : Nat) (ts : List (Triplet α)) :
    Triplet.matrix rows cols (Triplet.merged ts) = (Triplet.matrix rows cols ts).sumDuplicates := by
  have hentries : ∀ es : List (Entry α), (es.map Triplet.ofEntry).map Triplet.entry = es :=
    fun es => by
      rw [List.map_map]
      exact List.map_id es
  exact congrArg (SparseMatrix.mk rows cols) (hentries _)

/-- Indices below `2 ^ 63` are stored as they are. -/
theorem storedIndices_map {β : Type} {xs : List β} {f : β → Int} {size : Nat}
    (hsize : size < 2 ^ 63) (h : ∀ x ∈ xs, 0 ≤ f x ∧ f x < size) :
    storedIndices (xs.map fun x => .whole (f x)) = .ok (xs.map f) := by
  refine mapM_map_ok fun x hx => Number.toIdentifier_whole ?_
  have hx := h x hx
  have htwo : Decimal.twoTo 63 = 2 ^ 63 := rfl
  simp only [Number.inInt64, Number.leastInt64, htwo, Bool.and_eq_true, decide_eq_true_eq]
  push_cast
  omega

theorem eq_of_storedIndices_whole : ∀ {ns ks : List Int},
    storedIndices (ns.map .whole) = .ok ks → ks = ns
  | [], _, h => (Except.ok.inj h).symm
  | n :: ns, _, h => by
    obtain ⟨k, ks, hk, hks, rfl⟩ := mapM_cons_eq_ok.mp h
    rw [Number.eq_of_toIdentifier_whole hk, eq_of_storedIndices_whole hks]

/-- Three lists give triplets that lie in a shape. -/
structure Triplet.GivenBy {α : Type} (rows cols : Nat) (ts : List (Triplet α)) (rs cs : List Number)
    (vs : List α) : Prop where
  row_list : storedIndices rs = .ok (ts.map (·.1))
  col_list : storedIndices cs = .ok (ts.map (·.2.1))
  value_list : vs = ts.map (·.2.2)
  fits : ∀ t ∈ ts, Triplet.Fits rows cols t

/-- Triplets that fit are given by their columns. -/
theorem Triplet.givenBy_columns {α : Type} {rows cols : Nat} {ts : List (Triplet α)}
    (hrows : rows < 2 ^ 63) (hcols : cols < 2 ^ 63) (hts : ∀ t ∈ ts, Triplet.Fits rows cols t) :
    Triplet.GivenBy rows cols ts ((ts.map (·.1)).map .whole) ((ts.map (·.2.1)).map .whole)
      (ts.map (·.2.2)) := by
  rw [List.map_map, List.map_map]
  exact ⟨storedIndices_map hrows fun t ht => (hts t ht).1,
    storedIndices_map hcols fun t ht => (hts t ht).2, rfl, hts⟩

namespace BufferedMatrix

variable {α : Type}

/-- A matrix whose buffer is empty, with triplets in its columns. -/
def ofTriplets (rows cols : Nat) (ts : List (Triplet α)) : BufferedMatrix α where
  rows := rows
  cols := cols
  rowColumn := ts.map (·.1)
  colColumn := ts.map (·.2.1)
  valueColumn := ts.map (·.2.2)

/-- A matrix of a shape holds triplets, some in its columns and the others in its buffer. The
dimensions are such that every index can be stored. -/
structure Holds (m : BufferedMatrix α) (rows cols : Nat) (ts : List (Triplet α)) : Prop where
  rows_lt : rows < 2 ^ 63
  cols_lt : cols < 2 ^ 63
  fits : ∀ t ∈ ts, Triplet.Fits rows cols t
  parts : ∃ stored waiting, m = { ofTriplets rows cols stored with pending := waiting } ∧
    stored ++ waiting = ts

variable {m : BufferedMatrix α} {rows cols : Nat} {ts : List (Triplet α)}

theorem holds_empty (hrows : rows < 2 ^ 63) (hcols : cols < 2 ^ 63) :
    (empty rows cols : BufferedMatrix α).Holds rows cols [] :=
  ⟨hrows, hcols, fun _ h => absurd h List.not_mem_nil, [], [], rfl, rfl⟩

/-- The matrix that holds triplets in its columns. -/
theorem Holds.ofTriplets (h : m.Holds rows cols ts) {us : List (Triplet α)}
    (hus : ∀ t ∈ us, Triplet.Fits rows cols t) : (ofTriplets rows cols us).Holds rows cols us :=
  ⟨h.rows_lt, h.cols_lt, hus, us, [], rfl, List.append_nil us⟩

section Reading

variable (h : m.Holds rows cols ts)
include h

theorem Holds.rows_eq : m.rows = rows := by
  obtain ⟨stored, waiting, rfl, -⟩ := h.parts
  rfl

theorem Holds.cols_eq : m.cols = cols := by
  obtain ⟨stored, waiting, rfl, -⟩ := h.parts
  rfl

theorem Holds.size_eq : m.size = ts.length := by
  obtain ⟨stored, waiting, rfl, rfl⟩ := h.parts
  exact (congrArg (· + waiting.length) (List.length_map _)).trans List.length_append.symm

/-- **Folding the buffer in** changes no triplet. -/
theorem flush_run : flush.run m = .ok () (ofTriplets rows cols ts) := by
  obtain ⟨stored, waiting, rfl, rfl⟩ := h.parts
  have hfits : ∀ t ∈ waiting, Triplet.Fits rows cols t :=
    fun t ht => h.fits t (List.mem_append_right stored ht)
  have hrows : storedIndices (waiting.map fun t => .whole t.1) = .ok (waiting.map (·.1)) :=
    storedIndices_map h.rows_lt fun t ht => (hfits t ht).1
  have hcols : storedIndices (waiting.map fun t => .whole t.2.1) = .ok (waiting.map (·.2.1)) :=
    storedIndices_map h.cols_lt fun t ht => (hfits t ht).2
  unfold flush
  rw [run_bind_ok (EStateM.run_get _)]
  by_cases hempty : waiting.isEmpty = true
  · obtain rfl := List.isEmpty_iff.mp hempty
    rw [List.append_nil]
    rfl
  · simp only [hempty, Bool.false_eq_true, if_false, EStateM.run_bind, EStateM.run_modify,
      run_liftM_ok hrows, run_liftM_ok hcols, ofTriplets, ← List.map_append]

theorem columns_run : columns.run m =
    .ok (ts.map (·.1), ts.map (·.2.1), ts.map (·.2.2)) (ofTriplets rows cols ts) := by
  unfold columns
  rw [run_bind_ok (flush_run h)]
  rfl

theorem settled_run :
    settled.run m = .ok (Triplet.matrix rows cols ts) (ofTriplets rows cols ts) := by
  unfold settled
  rw [run_bind_ok (flush_run h)]
  show EStateM.Result.ok (ofTriplets rows cols ts).stored _ = _
  unfold stored ofTriplets Triplet.matrix
  rw [List.zip_map', List.zip_map', List.map_map]
  rfl

end Reading

/-! ## Adding -/

/-- **Adding an entry** whose position lies in the matrix. -/
theorem add_run_ok (h : m.Holds rows cols ts) {row col : Number} {r c : Nat}
    (hr : row.place? rows = some r) (hc : col.place? cols = some c) (v : α) :
    ∃ m', (add row col v).run m = .ok () m' ∧
      m'.Holds rows cols (ts ++ [((r : Int), (c : Int), v)]) := by
  obtain ⟨hrow, hrowInt, hr⟩ := Number.place?_eq_some hr
  obtain ⟨hcol, hcolInt, hc⟩ := Number.place?_eq_some hc
  obtain ⟨stored, waiting, rfl, rfl⟩ := h.parts
  refine ⟨{ ofTriplets rows cols stored with
    pending := waiting ++ [((r : Int), (c : Int), v)] }, ?_, h.rows_lt, h.cols_lt, ?_,
    stored, _, rfl, (List.append_assoc ..).symm⟩
  · unfold add
    simp only [EStateM.run_bind, EStateM.run_get, ofTriplets, hrow, hcol, if_true,
      run_liftM_ok hrowInt, run_liftM_ok hcolInt, EStateM.run_modify]
  · intro t ht
    rcases List.mem_append.mp ht with ht | ht
    · exact h.fits t ht
    · obtain rfl := List.mem_singleton.mp ht
      exact ⟨⟨Int.natCast_nonneg r, Int.ofNat_lt.mpr hr⟩, Int.natCast_nonneg c,
        Int.ofNat_lt.mpr hc⟩

theorem add_run_error (h : m.Holds rows cols ts) {row col : Number}
    (hplace : row.place? rows = none ∨ col.place? cols = none) (v : α) :
    ∃ e, (add row col v).run m = .error e m := by
  unfold add
  rw [run_bind_ok (EStateM.run_get m), h.rows_eq, h.cols_eq]
  by_cases hrow : (row.atLeast 0 && row.below rows) = true
  · have hcol : (col.atLeast 0 && col.below cols) = false := by
      rcases hplace with hnone | hnone
      · rw [Number.place?_eq_none hnone] at hrow
        cases hrow
      · exact Number.place?_eq_none hnone
    rw [if_pos hrow, if_neg (by rw [hcol]; exact Bool.false_ne_true)]
    exact ⟨_, rfl⟩
  · rw [if_neg hrow]
    exact ⟨_, rfl⟩

/-- **Adding many entries** that all fit. -/
theorem addEntries_run_ok (h : m.Holds rows cols ts) {us : List (Triplet α)}
    {rs cs : List Number} {vs : List α} (hus : Triplet.GivenBy rows cols us rs cs vs) :
    ∃ m', (addEntries rs cs vs).run m = .ok () m' ∧ m'.Holds rows cols (ts ++ us) := by
  obtain ⟨hr, hc, rfl, hfits⟩ := hus
  have hrows := (SparseMatrix.checkBounds_eq_ok "matrix rows").mpr
    (List.forall_mem_map.mpr fun t ht => (hfits t ht).1)
  have hcols := (SparseMatrix.checkBounds_eq_ok "matrix columns").mpr
    (List.forall_mem_map.mpr fun t ht => (hfits t ht).2)
  have hall : ∀ t ∈ ts ++ us, Triplet.Fits rows cols t :=
    List.forall_mem_append.mpr ⟨h.fits, hfits⟩
  unfold addEntries
  rw [run_bind_ok (run_liftM_ok hr m), run_bind_ok (run_liftM_ok hc m),
    if_pos (by simp only [List.length_map, and_self])]
  by_cases hempty : (us.map (·.1)).isEmpty = true
  · obtain rfl : us = [] := List.map_eq_nil_iff.mp (List.isEmpty_iff.mp hempty)
    exact ⟨m, rfl, by rwa [List.append_nil]⟩
  · refine ⟨ofTriplets rows cols (ts ++ us), ?_, h.ofTriplets hall⟩
    simp only [hempty, Bool.false_eq_true, if_false, EStateM.run_bind, EStateM.run_get, h.rows_eq,
      h.cols_eq, run_liftM_ok hrows, run_liftM_ok hcols, flush_run h, EStateM.run_modify,
      ofTriplets, List.map_append]

theorem addEntries_run_error (h : m.Holds rows cols ts) {rs cs : List Number} {vs : List α}
    (hno : ∀ us : List (Triplet α), ¬ Triplet.GivenBy rows cols us rs cs vs) :
    ∃ e, (addEntries rs cs vs).run m = .error e m := by
  unfold addEntries
  cases hr : storedIndices rs with
  | error e => exact ⟨e, run_bind_error (run_liftM_error rfl m) _⟩
  | ok r =>
  rw [run_bind_ok (run_liftM_ok rfl m)]
  cases hc : storedIndices cs with
  | error e => exact ⟨e, run_bind_error (run_liftM_error rfl m) _⟩
  | ok c =>
  rw [run_bind_ok (run_liftM_ok rfl m)]
  by_cases hlen : r.length = c.length ∧ c.length = vs.length
  · obtain ⟨us, rfl, rfl, rfl⟩ := Triplet.exists_columns hlen.1 hlen.2
    have hout : ¬ ∀ t ∈ us, Triplet.Fits rows cols t := fun hfits => hno us ⟨hr, hc, rfl, hfits⟩
    have hempty : ¬ (us.map (·.1)).isEmpty = true := by
      rw [List.isEmpty_iff, List.map_eq_nil_iff]
      rintro rfl
      exact hout fun _ ht => absurd ht List.not_mem_nil
    rw [if_pos hlen, if_neg hempty, run_bind_ok (EStateM.run_get m), h.rows_eq, h.cols_eq]
    cases hrows : SparseMatrix.checkBounds (us.map (·.1)) rows "matrix rows" with
    | error e => exact ⟨e, run_bind_error (run_liftM_error rfl m) _⟩
    | ok _ =>
    rw [run_bind_ok (run_liftM_ok rfl m)]
    cases hcols : SparseMatrix.checkBounds (us.map (·.2.1)) cols "matrix columns" with
    | error e => exact ⟨e, run_bind_error (run_liftM_error rfl m) _⟩
    | ok _ =>
    exact absurd (fun t ht =>
      ⟨(SparseMatrix.checkBounds_eq_ok _).mp hrows _ (List.mem_map_of_mem ht),
      (SparseMatrix.checkBounds_eq_ok _).mp hcols _ (List.mem_map_of_mem ht)⟩) hout
  · rw [if_neg hlen]
    exact ⟨_, rfl⟩

/-- **Adding the entries of another matrix** of the same shape. -/
theorem append_run (h : m.Holds rows cols ts) {o : BufferedMatrix α} {us : List (Triplet α)}
    (ho : o.Holds rows cols us) :
    ∃ m', (append o).run m = .ok () m' ∧ m'.Holds rows cols (ts ++ us) := by
  obtain ⟨m', hrun, hm'⟩ :=
    addEntries_run_ok h (Triplet.givenBy_columns ho.rows_lt ho.cols_lt ho.fits)
  refine ⟨m', ?_, hm'⟩
  unfold append
  rw [run_bind_ok (EStateM.run_get m), h.rows_eq, h.cols_eq, if_pos ⟨ho.rows_eq, ho.cols_eq⟩,
    run_bind_ok (run_liftM_ok (resultOn_of_ok (columns_run ho)) m)]
  exact hrun

theorem clear_run (h : m.Holds rows cols ts) :
    ∃ m', clear.run m = .ok () m' ∧ m'.Holds rows cols [] := by
  obtain ⟨stored, waiting, rfl, -⟩ := h.parts
  exact ⟨_, rfl, holds_empty h.rows_lt h.cols_lt⟩

/-! ## New matrices -/

/-- Triplets that fit make a matrix. -/
theorem ofColumns_eq (hrows : rows < 2 ^ 63) (hcols : cols < 2 ^ 63)
    (hts : ∀ t ∈ ts, Triplet.Fits rows cols t) :
    ∃ m, ofColumns rows cols (ts.map (·.1), ts.map (·.2.1), ts.map (·.2.2)) = .ok m ∧
      m.Holds rows cols ts := by
  obtain ⟨m, hrun, hm⟩ := addEntries_run_ok (holds_empty hrows hcols)
    (Triplet.givenBy_columns hrows hcols hts)
  refine ⟨m, ?_, hm⟩
  unfold ofColumns filled
  rw [hrun]

/-- **The entries of a matrix make a matrix in memory** if they lie in its shape, and only then. -/
theorem ofMatrix_eq {a : SparseMatrix α} (hrows : a.rows < 2 ^ 63) (hcols : a.cols < 2 ^ 63)
    (ha : a.InBounds) :
    ∃ m, ofMatrix a = .ok m ∧ m.Holds a.rows a.cols (a.entries.map Triplet.ofEntry) := by
  have hfits : ∀ t ∈ a.entries.map Triplet.ofEntry, Triplet.Fits a.rows a.cols t :=
    List.forall_mem_map.mpr fun e he => Triplet.fits_ofEntry (ha e he).1 (ha e he).2
  obtain ⟨m, hof, hm⟩ := ofColumns_eq hrows hcols hfits
  simp only [List.map_map] at hof
  exact ⟨m, hof, hm⟩

theorem inBounds_of_ofMatrix {a : SparseMatrix α} (hrows : a.rows < 2 ^ 63)
    (hcols : a.cols < 2 ^ 63) {m : BufferedMatrix α} (h : ofMatrix a = .ok m) : a.InBounds := by
  by_contra hout
  have hno : ∀ us : List (Triplet α), ¬ Triplet.GivenBy a.rows a.cols us
      ((a.entries.map fun e => (e.row : Int)).map .whole)
      ((a.entries.map fun e => (e.col : Int)).map .whole) (a.entries.map Entry.value) := by
    rintro us ⟨hr, hc, -, hfits⟩
    have hr := eq_of_storedIndices_whole hr
    have hc := eq_of_storedIndices_whole hc
    refine hout fun e he => ⟨?_, ?_⟩
    · obtain ⟨t, ht, hrow⟩ := List.mem_map.mp (hr ▸ List.mem_map_of_mem he)
      exact Int.ofNat_lt.mp (hrow ▸ (hfits t ht).1.2)
    · obtain ⟨t, ht, hcol⟩ := List.mem_map.mp (hc ▸ List.mem_map_of_mem he)
      exact Int.ofNat_lt.mp (hcol ▸ (hfits t ht).2.2)
  obtain ⟨e, he⟩ := addEntries_run_error (holds_empty hrows hcols) hno
  unfold ofMatrix ofColumns filled at h
  rw [he] at h
  exact error_ne_ok h

section Derived

variable (h : m.Holds rows cols ts)
include h

theorem copy_run : ∃ m', copy.run m = .ok m' (ofTriplets rows cols ts) ∧ m'.Holds rows cols ts := by
  obtain ⟨m', hof, hm'⟩ := ofColumns_eq h.rows_lt h.cols_lt h.fits
  refine ⟨m', ?_, hm'⟩
  unfold copy
  rw [run_bind_ok (EStateM.run_get m), run_bind_ok (columns_run h), h.rows_eq, h.cols_eq]
  exact run_liftM_ok hof _

theorem transpose_run : ∃ m', transpose.run m = .ok m' (ofTriplets rows cols ts) ∧
    m'.Holds cols rows (ts.map fun t => (t.2.1, t.1, t.2.2)) := by
  have hfits : ∀ t ∈ ts, Triplet.Fits cols rows (t.2.1, t.1, t.2.2) :=
    fun t ht => (h.fits t ht).symm
  obtain ⟨m', hof, hm'⟩ := ofColumns_eq h.cols_lt h.rows_lt (List.forall_mem_map.mpr hfits)
  refine ⟨m', ?_, hm'⟩
  rw [List.map_map, List.map_map, List.map_map] at hof
  unfold transpose
  rw [run_bind_ok (EStateM.run_get m), run_bind_ok (columns_run h), h.rows_eq, h.cols_eq]
  exact run_liftM_ok hof _

theorem lowerTriangle_run : ∃ m', lowerTriangle.run m = .ok m' (ofTriplets rows cols ts) ∧
    m'.Holds rows cols (ts.filter fun t => t.2.1 ≤ t.1) := by
  have hfits : ∀ t ∈ ts.filter fun t => t.2.1 ≤ t.1, Triplet.Fits rows cols t :=
    fun t ht => h.fits t (List.mem_filter.mp ht).1
  obtain ⟨m', hof, hm'⟩ := ofColumns_eq h.rows_lt h.cols_lt hfits
  refine ⟨m', ?_, hm'⟩
  unfold lowerTriangle
  rw [run_bind_ok (EStateM.run_get m), run_bind_ok (columns_run h), h.rows_eq, h.cols_eq]
  simp only [List.zip_map']
  rw [List.map_id']
  exact run_liftM_ok hof _

end Derived

/-! ## Changes in place and products -/

section Values

variable [Scalar α] (h : m.Holds rows cols ts)
include h

theorem scaleRows_run {factors : Tensor α} (hf : factors.shape = [rows]) :
    ∃ m', (scaleRows factors).run m = .ok () m' ∧ m'.Holds rows cols
      (ts.map fun t => (t.1, t.2.1, t.2.2 * factors.values.getD t.1.toNat 0)) := by
  refine ⟨ofTriplets rows cols _, ?_, h.ofTriplets (List.forall_mem_map.mpr h.fits)⟩
  unfold scaleRows
  rw [run_bind_ok (EStateM.run_get m), h.rows_eq, if_pos hf, run_bind_ok (columns_run h)]
  simp only [List.zip_map', ofTriplets, List.map_map]
  rfl

theorem scaleRows_run_error {factors : Tensor α} (hf : factors.shape ≠ [rows]) :
    ∃ e, (scaleRows factors).run m = .error e m := by
  unfold scaleRows
  rw [run_bind_ok (EStateM.run_get m), h.rows_eq, if_neg hf]
  exact ⟨_, rfl⟩

theorem scaleCols_run {factors : Tensor α} (hf : factors.shape = [cols]) :
    ∃ m', (scaleCols factors).run m = .ok () m' ∧ m'.Holds rows cols
      (ts.map fun t => (t.1, t.2.1, t.2.2 * factors.values.getD t.2.1.toNat 0)) := by
  refine ⟨ofTriplets rows cols _, ?_, h.ofTriplets (List.forall_mem_map.mpr h.fits)⟩
  unfold scaleCols
  rw [run_bind_ok (EStateM.run_get m), h.cols_eq, if_pos hf, run_bind_ok (columns_run h)]
  simp only [List.zip_map', ofTriplets, List.map_map]
  rfl

theorem scaleCols_run_error {factors : Tensor α} (hf : factors.shape ≠ [cols]) :
    ∃ e, (scaleCols factors).run m = .error e m := by
  unfold scaleCols
  rw [run_bind_ok (EStateM.run_get m), h.cols_eq, if_neg hf]
  exact ⟨_, rfl⟩

theorem rowSums_run : rowSums.run m =
    .ok (Triplet.matrix rows cols ts).rowSums (ofTriplets rows cols ts) := by
  unfold rowSums
  rw [run_bind_ok (settled_run h)]
  rfl

theorem apply_run {x : Tensor α} (hx : x.shape = [cols]) (skipNaN : Bool) {y : Totals α}
    (hy : (Triplet.matrix rows cols ts).apply x skipNaN = .ok y) :
    (apply x skipNaN).run m = .ok y (ofTriplets rows cols ts) := by
  unfold apply
  rw [run_bind_ok (EStateM.run_get m), h.cols_eq, if_pos hx, run_bind_ok (settled_run h)]
  exact run_liftM_ok hy _

end Values

/-- **Merging** leaves the merged triplets, all of them in the columns. -/
theorem sumDuplicates_run {m : BufferedMatrix Rat} {ts : List (Triplet Rat)}
    (h : m.Holds rows cols ts) :
    sumDuplicates.run m = .ok () (ofTriplets rows cols (Triplet.merged ts)) ∧
      (ofTriplets rows cols (Triplet.merged ts)).Holds rows cols (Triplet.merged ts) := by
  have hbounds := (Triplet.inBounds_matrix h.fits).sumDuplicates
  refine ⟨?_, h.ofTriplets (List.forall_mem_map.mpr fun e he =>
    Triplet.fits_ofEntry (hbounds e he).1 (hbounds e he).2)⟩
  unfold sumDuplicates
  rw [run_bind_ok (settled_run h)]
  unfold ofTriplets Triplet.merged
  rw [List.map_map, List.map_map, List.map_map]
  rfl

end BufferedMatrix

end Regrid

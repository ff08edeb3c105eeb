import Regrid.Proofs.Sparse.Calls

/-!
# Matrices in a run of calls

Every change of a matrix does what a function does to the dense one, or it fails and leaves the
triplets (`Realizes`). So does every call on a workspace (`MatrixCall.run_follows`), and by
induction the matrices in memory stand for the dense ones after every run. They are read as such:
columns of one length with indices inside of the shape, elements that are the sums at their
coordinates, products with vectors and sums of rows (`runAll_represents`).
-/

namespace Regrid

open Attempt

/-! ## Changes of one matrix -/

namespace BufferedMatrix

/-- A matrix in memory stands for a dense one. -/
def StandsFor (m : BufferedMatrix Rat) (d : DenseMatrix) : Prop :=
  ∃ rows cols ts, m.Holds rows cols ts ∧ Triplet.dense rows cols ts = d

/-- Two matrices hold the same triplets. -/
def SameTriplets (m m' : BufferedMatrix Rat) : Prop :=
  ∃ rows cols ts, m.Holds rows cols ts ∧ m'.Holds rows cols ts

/-- A change does to a matrix what a function does to the dense one. Where the function has no
result the change fails, and leaves the triplets. -/
def Realizes (change : Attempt (BufferedMatrix Rat) Unit)
    (f : DenseMatrix → Option DenseMatrix) : Prop :=
  ∀ ⦃m rows cols ts⦄, m.Holds rows cols ts →
    (∃ m' d, change.run m = .ok () m' ∧ f (Triplet.dense rows cols ts) = some d ∧ m'.StandsFor d) ∨
    ∃ e m', change.run m = .error e m' ∧ f (Triplet.dense rows cols ts) = none ∧
      m'.Holds rows cols ts

theorem add_realizes (row col : Number) (v : Rat) :
    Realizes (add row col v) fun d => d.addAt? row col v := by
  intro m rows cols ts h
  unfold DenseMatrix.addAt?
  cases hr : row.place? rows with
  | none =>
    obtain ⟨e, hrun⟩ := add_run_error h (Or.inl hr) v
    exact Or.inr ⟨e, m, hrun, congrArg (· >>= _) hr, h⟩
  | some r =>
  cases hc : col.place? cols with
  | none =>
    obtain ⟨e, hrun⟩ := add_run_error h (Or.inr hc) v
    refine Or.inr ⟨e, m, hrun, (congrArg (· >>= _) hr).trans ?_, h⟩
    exact congrArg (· >>= _) hc
  | some c =>
    obtain ⟨m', hrun, hm'⟩ := add_run_ok h hr hc v
    refine Or.inl ⟨m', _, hrun, ?_, rows, cols, _, hm', rfl⟩
    refine (congrArg (· >>= _) hr).trans ((congrArg (· >>= _) hc).trans ?_)
    rw [Triplet.dense_concat]
    rfl

theorem addEntries_realizes (rs cs : List Number) (vs : List Rat) :
    Realizes (addEntries rs cs vs) fun d => d.addMany? rs cs vs := by
  intro m rows cols ts h
  by_cases hgiven : ∃ us, Triplet.GivenBy rows cols us rs cs vs
  · obtain ⟨us, hus⟩ := hgiven
    obtain ⟨m', hrun, hm'⟩ := addEntries_run_ok h hus
    exact Or.inl ⟨m', _, hrun, DenseMatrix.addMany?_of_givenBy hus, rows, cols, _, hm', rfl⟩
  · rw [not_exists] at hgiven
    obtain ⟨e, hrun⟩ := addEntries_run_error h hgiven
    exact Or.inr ⟨e, m, hrun, DenseMatrix.addMany?_eq_none hgiven, h⟩

theorem clear_realizes : Realizes clear fun d => some (.zero d.rows d.cols) := by
  intro m rows cols ts h
  obtain ⟨m', hrun, hm'⟩ := clear_run h
  exact Or.inl ⟨m', _, hrun, rfl, rows, cols, [], hm', Triplet.dense_nil⟩

theorem sumDuplicates_realizes : Realizes sumDuplicates some := by
  intro m rows cols ts h
  obtain ⟨hrun, hm'⟩ := sumDuplicates_run h
  exact Or.inl ⟨_, _, hrun, rfl, rows, cols, _, hm', Triplet.dense_merged⟩

theorem scaleRows_realizes (factors : Tensor Rat) : Realizes (scaleRows factors) fun d =>
    if factors.shape = [d.rows] then some (d.scaleRows fun i => factors.values.getD i 0)
    else none := by
  intro m rows cols ts h
  by_cases hf : factors.shape = [rows]
  · obtain ⟨m', hrun, hm'⟩ := scaleRows_run h hf
    exact Or.inl ⟨m', _, hrun, if_pos hf, rows, cols, _, hm',
      Triplet.dense_scaleRows fun i => factors.values.getD i 0⟩
  · obtain ⟨e, hrun⟩ := scaleRows_run_error h hf
    exact Or.inr ⟨e, m, hrun, if_neg hf, h⟩

theorem scaleCols_realizes (factors : Tensor Rat) : Realizes (scaleCols factors) fun d =>
    if factors.shape = [d.cols] then some (d.scaleCols fun j => factors.values.getD j 0)
    else none := by
  intro m rows cols ts h
  by_cases hf : factors.shape = [cols]
  · obtain ⟨m', hrun, hm'⟩ := scaleCols_run h hf
    exact Or.inl ⟨m', _, hrun, if_pos hf, rows, cols, _, hm',
      Triplet.dense_scaleCols fun j => factors.values.getD j 0⟩
  · obtain ⟨e, hrun⟩ := scaleCols_run_error h hf
    exact Or.inr ⟨e, m, hrun, if_neg hf, h⟩

/-- A new matrix is made from another one, whose triplets stay. -/
def Yields (make : Attempt (BufferedMatrix Rat) (BufferedMatrix Rat))
    (f : DenseMatrix → DenseMatrix) : Prop :=
  ∀ ⦃m rows cols ts⦄, m.Holds rows cols ts → ∃ m' new, make.run m = .ok new m' ∧
    m'.Holds rows cols ts ∧ new.StandsFor (f (Triplet.dense rows cols ts))

/-- **A new matrix** with given entries. -/
theorem ofShape_standsFor {shape : List Number}
    (entries : Option (List Number × List Number × List Rat))
    (hsmall : ∀ m : SparseMatrix Rat, SparseMatrix.ofShape shape = .ok m →
      m.rows < 2 ^ 63 ∧ m.cols < 2 ^ 63) :
    (∃ m d, ofShape shape entries = .ok m ∧ DenseMatrix.ofShape? shape entries = some d ∧
      m.StandsFor d) ∨
    ∃ e, ofShape shape entries = .error e ∧ DenseMatrix.ofShape? shape entries = none := by
  unfold ofShape DenseMatrix.ofShape?
  cases hshape : SparseMatrix.ofShape (α := Rat) shape with
  | error e => exact Or.inr ⟨e, rfl, rfl⟩
  | ok m =>
  obtain ⟨hrows, hcols⟩ := hsmall m hshape
  have hempty := holds_empty (α := Rat) hrows hcols
  rcases entries with - | ⟨rs, cs, vs⟩
  · exact Or.inl ⟨_, _, rfl, rfl, _, _, [], hempty, rfl⟩
  · rcases addEntries_realizes rs cs vs hempty with ⟨m', d, hrun, hd, hm'⟩ | ⟨e, m', hrun, hd, -⟩
    · refine Or.inl ⟨m', d, ?_, hd, hm'⟩
      show (empty m.rows m.cols).filled (addEntries rs cs vs) = _
      unfold filled
      rw [hrun]
    · refine Or.inr ⟨e, ?_, hd⟩
      show (empty m.rows m.cols).filled (addEntries rs cs vs) = _
      unfold filled
      rw [hrun]

theorem copy_yields : Yields copy id := by
  intro m rows cols ts h
  obtain ⟨new, hrun, hnew⟩ := copy_run h
  exact ⟨_, new, hrun, h.ofTriplets h.fits, rows, cols, _, hnew, rfl⟩

theorem transpose_yields : Yields transpose DenseMatrix.transpose := by
  intro m rows cols ts h
  obtain ⟨new, hrun, hnew⟩ := transpose_run h
  exact ⟨_, new, hrun, h.ofTriplets h.fits, cols, rows, _, hnew, Triplet.dense_transpose⟩

theorem lowerTriangle_yields : Yields lowerTriangle DenseMatrix.lower := by
  intro m rows cols ts h
  obtain ⟨new, hrun, hnew⟩ := lowerTriangle_run h
  exact ⟨_, new, hrun, h.ofTriplets h.fits, rows, cols, _, hnew, Triplet.dense_lower h.fits⟩

end BufferedMatrix

/-! ## Workspaces -/

namespace Workspace

open BufferedMatrix (Realizes Yields)

/-- The matrices of a workspace stand for dense ones. -/
def StandsFor (w : Workspace Rat) (v : DenseSpace) : Prop :=
  ∀ name, Option.Rel BufferedMatrix.StandsFor (valueAt? name w) (v name)

/-- The matrices of two workspaces hold the same triplets. -/
def SameTriplets (w w' : Workspace Rat) : Prop :=
  ∀ name, Option.Rel BufferedMatrix.SameTriplets (valueAt? name w) (valueAt? name w')

variable {w : Workspace Rat} {v : DenseSpace}

/-- A name has both matrices or none. -/
theorem StandsFor.cases (hw : w.StandsFor v) (name : String) :
    (valueAt? name w = none ∧ v name = none) ∨ ∃ m rows cols ts, valueAt? name w = some m ∧
      m.Holds rows cols ts ∧ v name = some (Triplet.dense rows cols ts) := by
  have hname := hw name
  revert hname
  generalize valueAt? name w = o, v name = p
  rintro (⟨rows, cols, ts, hm, rfl⟩ | -)
  · exact Or.inr ⟨_, rows, cols, ts, rfl, hm, rfl⟩
  · exact Or.inl ⟨rfl, rfl⟩

theorem StandsFor.assign (hw : w.StandsFor v) (name : String) {m : BufferedMatrix Rat}
    {d : DenseMatrix} (hm : m.StandsFor d) :
    StandsFor (assignKey name m w) (Function.update v name (some d)) := by
  intro k
  rw [valueAt?_assignKey]
  by_cases hk : name = k
  · rw [if_pos hk, ← hk, Function.update_self]
    exact .some hm
  · rw [if_neg hk, Function.update_of_ne (Ne.symm hk)]
    exact hw k

/-- Another matrix for the same dense one. -/
theorem StandsFor.assign_same (hw : w.StandsFor v) {name : String} {m : BufferedMatrix Rat}
    {d : DenseMatrix} (hv : v name = some d) (hm : m.StandsFor d) :
    StandsFor (assignKey name m w) v := by
  have := hw.assign name hm
  rwa [← hv, Function.update_eq_self] at this

theorem StandsFor.sameTriplets (hw : w.StandsFor v) : w.SameTriplets w := by
  intro name
  rcases hw.cases name with ⟨hnone, -⟩ | ⟨m, rows, cols, ts, hm, hold, -⟩
  · rw [hnone]
    exact .none
  · rw [hm]
    exact .some ⟨rows, cols, ts, hold, hold⟩

theorem StandsFor.sameTriplets_assign (hw : w.StandsFor v) {name : String}
    {m m' : BufferedMatrix Rat} {rows cols : Nat} {ts : List (Triplet Rat)}
    (hm : valueAt? name w = some m) (hold : m.Holds rows cols ts) (hold' : m'.Holds rows cols ts) :
    w.SameTriplets (assignKey name m' w) := by
  intro k
  rw [valueAt?_assignKey]
  by_cases hk : name = k
  · rw [if_pos hk, ← hk, hm]
    exact .some ⟨rows, cols, ts, hold, hold'⟩
  · rw [if_neg hk]
    exact hw.sameTriplets k

/-! ## Steps -/

section Running

variable {β : Type} {name : String} {m m' : BufferedMatrix Rat}
  {change : Attempt (BufferedMatrix Rat) β}

theorem look_run_some (hm : valueAt? name w = some m) : (look name).run w = .ok m w := by
  unfold look
  rw [run_bind_ok (EStateM.run_get w), hm]
  rfl

theorem look_run_none (hm : valueAt? name w = none) :
    (look name).run w = .error .missingKey w := by
  unfold look
  rw [run_bind_ok (EStateM.run_get w), hm]
  rfl

theorem update_run_ok {b : β} (hm : valueAt? name w = some m) (hrun : change.run m = .ok b m') :
    (update name change).run w = .ok b (assignKey name m' w) := by
  unfold update
  rw [run_bind_ok (look_run_some hm), hrun]
  rfl

theorem update_run_error {e : Error} (hm : valueAt? name w = some m)
    (hrun : change.run m = .error e m') :
    (update name change).run w = .error e (assignKey name m' w) := by
  unfold update
  rw [run_bind_ok (look_run_some hm), hrun]
  rfl

theorem update_run_none (hm : valueAt? name w = none) :
    (update name change).run w = .error .missingKey w := by
  unfold update
  rw [run_bind_error (look_run_none hm)]

end Running

/-- A step among the matrices of a workspace is one among dense matrices. If it fails the triplets
are those that were there. -/
def Follows (step : Attempt (Workspace Rat) Unit) (w : Workspace Rat) (v : DenseSpace)
    (dense : Option (String × DenseMatrix)) : Prop :=
  (∃ w' name d, step.run w = .ok () w' ∧ dense = some (name, d) ∧
    w'.StandsFor (Function.update v name (some d))) ∨
  ∃ e w', step.run w = .error e w' ∧ dense = none ∧ w'.StandsFor v ∧ w.SameTriplets w'

variable (hw : w.StandsFor v)
include hw

theorem update_follows (name : String) {change : Attempt (BufferedMatrix Rat) Unit}
    {f : DenseMatrix → Option DenseMatrix} (hchange : Realizes change f) :
    Follows (update name change) w v (v.change name f) := by
  rcases hw.cases name with ⟨hm, hv⟩ | ⟨m, rows, cols, ts, hm, hold, hv⟩
  · exact Or.inr ⟨_, w, update_run_none hm, v.change_of_none hv f, hw, hw.sameTriplets⟩
  rw [v.change_of_some hv]
  rcases hchange hold with ⟨m', d, hrun, hd, hm'⟩ | ⟨e, m', hrun, hd, hold'⟩
  · rw [hd]
    exact Or.inl ⟨_, name, d, update_run_ok hm hrun, rfl, hw.assign name hm'⟩
  · rw [hd]
    exact Or.inr ⟨e, _, update_run_error hm hrun, rfl,
      hw.assign_same hv ⟨rows, cols, ts, hold', rfl⟩, hw.sameTriplets_assign hm hold hold'⟩

theorem derive_follows (name result : String)
    {make : Attempt (BufferedMatrix Rat) (BufferedMatrix Rat)} {f : DenseMatrix → DenseMatrix}
    (hmake : Yields make f) :
    Follows (derive name result make) w v ((v name).map fun d => (result, f d)) := by
  unfold derive
  rcases hw.cases name with ⟨hm, hv⟩ | ⟨m, rows, cols, ts, hm, hold, hv⟩
  · rw [hv]
    exact Or.inr ⟨_, w, run_bind_error (update_run_none hm) _, rfl, hw, hw.sameTriplets⟩
  · obtain ⟨m', new, hrun, hold', hnew⟩ := hmake hold
    have hw' := hw.assign_same hv ⟨rows, cols, ts, hold', rfl⟩
    rw [hv]
    exact Or.inl ⟨_, result, _, run_bind_ok (update_run_ok hm hrun) _, rfl, hw'.assign result hnew⟩

theorem append_follows (name other : String) : Follows (append name other) w v
    ((v other).bind fun e => v.change name fun d => d.sum? e) := by
  unfold append
  rcases hw.cases name with ⟨hm, hv⟩ | ⟨m, rows, cols, ts, hm, hold, hv⟩
  · refine Or.inr ⟨_, w, run_bind_error (look_run_none hm) _, ?_, hw, hw.sameTriplets⟩
    rw [Option.bind_eq_none_iff]
    exact fun e _ => v.change_of_none hv _
  rcases hw.cases other with ⟨ho, hvo⟩ | ⟨o, orows, ocols, us, ho, holdo, hvo⟩
  · rw [hvo]
    exact Or.inr ⟨_, w, (run_bind_ok (look_run_some hm) _).trans
      (run_bind_error (look_run_none ho) _), rfl, hw, hw.sameTriplets⟩
  rw [hvo, Option.bind_some, v.change_of_some hv]
  by_cases hshape : orows = rows ∧ ocols = cols
  · obtain ⟨rfl, rfl⟩ := hshape
    -- the columns of the other matrix are read first, and it may be the same one
    have hread := update_run_ok ho (BufferedMatrix.columns_run holdo)
    have hw₁ := hw.assign_same hvo ⟨_, _, us, holdo.ofTriplets holdo.fits, rfl⟩
    generalize assignKey other (BufferedMatrix.ofTriplets orows ocols us) w = w₁ at hread hw₁
    have hgiven := Triplet.givenBy_columns holdo.rows_lt holdo.cols_lt holdo.fits
    have hsum : (Triplet.dense orows ocols ts).sum? (Triplet.dense orows ocols us) =
        some (Triplet.dense orows ocols (ts ++ us)) := by
      rw [Triplet.dense_append]
      exact if_pos ⟨rfl, rfl⟩
    rw [hsum]
    have hadd := update_follows hw₁ name (BufferedMatrix.addEntries_realizes
      ((us.map (·.1)).map .whole) ((us.map (·.2.1)).map .whole) (us.map (·.2.2)))
    rw [v.change_of_some hv, DenseMatrix.addMany?_of_givenBy hgiven] at hadd
    rcases hadd with ⟨w', k, d, hrun, hd, hw'⟩ | ⟨_, _, _, hd, -⟩
    · refine Or.inl ⟨w', k, d, ?_, hd, hw'⟩
      rw [run_bind_ok (look_run_some hm), run_bind_ok (look_run_some ho), hold.rows_eq,
        hold.cols_eq, holdo.rows_eq, holdo.cols_eq, if_pos ⟨rfl, rfl⟩, run_bind_ok hread]
      exact hrun
    · cases hd
  · have hsum : (Triplet.dense rows cols ts).sum? (Triplet.dense orows ocols us) = none :=
      if_neg hshape
    have hrun : ∃ e, (append name other).run w = .error e w := by
      unfold append
      rw [run_bind_ok (look_run_some hm), run_bind_ok (look_run_some ho), hold.rows_eq,
        hold.cols_eq, holdo.rows_eq, holdo.cols_eq, if_neg hshape]
      exact ⟨_, rfl⟩
    obtain ⟨e, hrun⟩ := hrun
    rw [hsum]
    exact Or.inr ⟨e, w, hrun, rfl, hw, hw.sameTriplets⟩

theorem new_follows (name : String) {shape : List Number}
    (entries : Option (List Number × List Number × List Rat))
    (hsmall : (MatrixCall.new name shape entries).Small) :
    Follows (MatrixCall.new name shape entries).run w v
      ((MatrixCall.new name shape entries).dense? v) := by
  rcases BufferedMatrix.ofShape_standsFor entries hsmall with ⟨m, d, hof, hd, hm⟩ | ⟨e, hof, hd⟩
  · refine Or.inl ⟨_, name, d, run_bind_ok (run_liftM_ok hof w) _, ?_, hw.assign name hm⟩
    rw [MatrixCall.dense?, hd, Option.map_some]
  · refine Or.inr ⟨e, w, run_bind_error (run_liftM_error hof w) _, ?_, hw, hw.sameTriplets⟩
    rw [MatrixCall.dense?, hd, Option.map_none]

end Workspace

/-! ## Runs -/

namespace MatrixCall

open Workspace

variable {w : Workspace Rat} {v : DenseSpace}

/-- **A call** does among dense matrices what it does in memory. -/
theorem run_follows (hw : w.StandsFor v) : ∀ {call : MatrixCall Rat}, call.Small →
    Follows call.run w v (call.dense? v)
  | new name _ entries, hsmall => new_follows hw name entries hsmall
  | add name row col value, _ => update_follows hw name (BufferedMatrix.add_realizes row col value)
  | addEntries name rows cols values, _ =>
    update_follows hw name (BufferedMatrix.addEntries_realizes rows cols values)
  | append name other, _ => append_follows hw name other
  | clear name, _ => update_follows hw name BufferedMatrix.clear_realizes
  | sumDuplicates name, _ => update_follows hw name BufferedMatrix.sumDuplicates_realizes
  | scaleRows name factors, _ =>
    update_follows hw name (BufferedMatrix.scaleRows_realizes factors)
  | scaleCols name factors, _ =>
    update_follows hw name (BufferedMatrix.scaleCols_realizes factors)
  | copy name result, _ => derive_follows hw name result BufferedMatrix.copy_yields
  | transpose name result, _ => derive_follows hw name result BufferedMatrix.transpose_yields
  | lowerTriangle name result, _ =>
    derive_follows hw name result BufferedMatrix.lowerTriangle_yields

/-- **The step.** -/
theorem after_standsFor (hw : w.StandsFor v) {call : MatrixCall Rat} (hsmall : call.Small) :
    (call.run.after w).StandsFor (call.denseNext v) := by
  unfold after denseNext
  rcases run_follows hw hsmall with ⟨w', name, d, hrun, hd, hw'⟩ | ⟨e, w', hrun, hd, hw', -⟩
  · rw [hrun, hd]
    exact hw'
  · rw [hrun, hd]
    exact hw'

/-- After a run, the matrices in memory stand for the dense ones of the run. -/
theorem runAll_standsFor {calls : List (MatrixCall Rat)} (hsmall : ∀ call ∈ calls, call.Small) :
    (runAll calls []).StandsFor (denseAll calls) := by
  have hrun : ∀ (calls : List (MatrixCall Rat)) (w : Workspace Rat) (v : DenseSpace),
      w.StandsFor v → (∀ call ∈ calls, call.Small) →
      (runAll calls w).StandsFor (calls.foldl (fun v call => call.denseNext v) v) := by
    intro calls
    induction calls with
    | nil => exact fun _ _ hw _ => hw
    | cons call calls ih =>
      intro w v hw hsmall
      obtain ⟨hcall, hrest⟩ := List.forall_mem_cons.mp hsmall
      exact ih _ _ (after_standsFor hw hcall) hrest
  exact hrun calls [] _ (fun _ => .none) hsmall

end MatrixCall

/-! ## What is read -/

theorem rel_imp {α β : Type} {R S : α → β → Prop} (h : ∀ a b, R a b → S a b) :
    ∀ {x : Option α} {y : Option β}, Option.Rel R x y → Option.Rel S x y
  | _, _, .some hab => .some (h _ _ hab)
  | _, _, .none => .none

namespace BufferedMatrix

/-- What is read of a matrix is what a dense one says. -/
structure Represents (m : BufferedMatrix Rat) (d : DenseMatrix) : Prop where
  rows_eq : m.rows = d.rows
  cols_eq : m.cols = d.cols
  /-- The three columns have one length, their indices lie in the shape, and the values at a
  coordinate add up to its element. -/
  columns : ∃ rs cs vs m', columns.run m = .ok (rs, cs, vs) m' ∧
    rs.length = m.size ∧ cs.length = m.size ∧ vs.length = m.size ∧
    (∀ r ∈ rs, 0 ≤ r ∧ r < d.rows) ∧ (∀ c ∈ cs, 0 ≤ c ∧ c < d.cols) ∧
    ∀ i j : Nat, (((rs.zip (cs.zip vs)).filter fun t =>
      t.1 = (i : Int) ∧ t.2.1 = (j : Int)).map (·.2.2)).sum = d.elem i j
  /-- The product with a vector is that of the dense matrix. -/
  apply : ∀ (x : Tensor Rat) (skipNaN : Bool), x.shape = [d.cols] →
    ∃ y m', (apply x skipNaN).run m = .ok y m' ∧ y.values.size = d.rows ∧
      ∀ i < d.rows, y.values.getD i 0 =
        ∑ j ∈ Finset.range d.cols, d.elem i j * x.values.getD j 0
  /-- So are the sums of the rows. -/
  rowSums : ∃ y m', rowSums.run m = .ok y m' ∧ y.values.size = d.rows ∧
    ∀ i < d.rows, y.values.getD i 0 = ∑ j ∈ Finset.range d.cols, d.elem i j

/-- The columns of two matrices read alike. -/
def ReadsAs (m m' : BufferedMatrix Rat) : Prop :=
  m.rows = m'.rows ∧ m.cols = m'.cols ∧
    ∃ c s s', BufferedMatrix.columns.run m = .ok c s ∧ BufferedMatrix.columns.run m' = .ok c s'

theorem StandsFor.represents {m : BufferedMatrix Rat} {d : DenseMatrix} (h : m.StandsFor d) :
    m.Represents d := by
  obtain ⟨rows, cols, ts, hold, rfl⟩ := h
  have hbounds := Triplet.inBounds_matrix hold.fits
  refine ⟨hold.rows_eq, hold.cols_eq, ?_, ?_, ?_⟩
  · refine ⟨_, _, _, _, columns_run hold, ?_, ?_, ?_, ?_, ?_, fun i j => ?_⟩
    · rw [List.length_map, hold.size_eq]
    · rw [List.length_map, hold.size_eq]
    · rw [List.length_map, hold.size_eq]
    · exact List.forall_mem_map.mpr fun t ht => (hold.fits t ht).1
    · exact List.forall_mem_map.mpr fun t ht => (hold.fits t ht).2
    · rw [Triplet.elem_dense, List.zip_map', List.zip_map', List.map_id', sum_map_filter]
      congr 1
      refine List.map_congr_left fun t ht => ?_
      obtain ⟨⟨hr, -⟩, hc, -⟩ := hold.fits t ht
      have hat : t.1 = i ∧ t.2.1 = j ↔ t.1.toNat = i ∧ t.2.1.toNat = j := by omega
      simp only [decide_eq_true_eq, if_congr hat rfl rfl]
  · intro x skipNaN hx
    obtain ⟨y, hy, hsize, hvalues⟩ := SparseMatrix.apply_eq hbounds hx
    rw [← SparseMatrix.apply_skipNaN _ x skipNaN] at hy
    exact ⟨y, _, apply_run hold hx skipNaN hy, hsize, hvalues⟩
  · refine ⟨_, _, rowSums_run hold, SparseMatrix.size_bucketSums _ _, fun i hi => ?_⟩
    exact SparseMatrix.getD_rowSums hbounds hi

theorem SameTriplets.readsAs {m m' : BufferedMatrix Rat} (h : m.SameTriplets m') :
    m.ReadsAs m' := by
  obtain ⟨rows, cols, ts, hold, hold'⟩ := h
  exact ⟨hold.rows_eq.trans hold'.rows_eq.symm, hold.cols_eq.trans hold'.cols_eq.symm, _, _, _,
    columns_run hold, columns_run hold'⟩

end BufferedMatrix

namespace MatrixCall

/-- **A run of calls** on sparse matrices is one on dense matrices: every matrix that is there
afterwards represents the dense one of its name. A further call that fails changes nothing that is
read. -/
theorem runAll_represents (calls : List (MatrixCall Rat)) (hsmall : ∀ call ∈ calls, call.Small) :
    (∀ name, Option.Rel BufferedMatrix.Represents (valueAt? name (runAll calls []))
      (denseAll calls name)) ∧
    ∀ (call : MatrixCall Rat) (e : Error) (w : Workspace Rat), call.Small →
      call.run.run (runAll calls []) = .error e w →
      ∀ name, Option.Rel BufferedMatrix.ReadsAs (valueAt? name (runAll calls []))
        (valueAt? name w) := by
  have hrun := runAll_standsFor hsmall
  constructor
  · intro name
    exact rel_imp (fun _ _ h => h.represents) (hrun name)
  · intro call e w hcall hfail name
    rcases run_follows hrun hcall with ⟨_, _, _, hok, -⟩ | ⟨_, _, herr, -, -, hsame⟩
    · rw [hok] at hfail
      cases hfail
    · rw [herr] at hfail
      cases hfail
      exact rel_imp (fun _ _ h => h.readsAs) (hsame name)

/-- A matrix that is appended to itself after entries that fit and entries that do not, and then
transposed. -/
def selfAppended : List (MatrixCall Rat) :=
  [.new "a" [2, 3] none, .add "a" 0 1 2, .add "a" 2 0 5, .add "a" 1 2 3, .append "a" "a",
    .addEntries "a" [0, 1] [1, 3] [1, 1], .transpose "a" "b"]

theorem runAll_represents_selfAppended : (∀ call ∈ selfAppended, call.Small) ∧
    (denseAll selfAppended "b").map (fun d => (d.rows, d.cols, d.elem 1 0, d.elem 2 1)) =
      some (3, 2, 4, 6) ∧
    Option.Rel BufferedMatrix.Represents (valueAt? "b" (runAll selfAppended []))
      (denseAll selfAppended "b") := by
  have hsmall : ∀ call ∈ selfAppended, call.Small := by
    refine List.forall_mem_cons.mpr ⟨fun m hm => ?_, ?_⟩
    · obtain rfl : SparseMatrix.empty 2 3 = m := Except.ok.inj hm
      decide
    · simp only [List.forall_mem_cons, Small, true_and]
      exact fun _ h => absurd h List.not_mem_nil
  exact ⟨hsmall, by decide +kernel, (runAll_represents selfAppended hsmall).1 "b"⟩

end MatrixCall

end Regrid

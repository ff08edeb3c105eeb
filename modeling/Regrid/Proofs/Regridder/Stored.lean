import Regrid.Proofs.LatLon.Extended
import Regrid.Proofs.Number
import Regrid.Proofs.Outcome
import Regrid.Proofs.Regridder.Missing
import Regrid.Proofs.Sparse.Merge
import Regrid.Regridder.Archive

/-!
# Stored weights

What is stored of a matrix is read back entry by entry, or refused if an entry lies outside
(`matrix_stored`). Stored weights are taken exactly for the requests they fit (`_validate_weights`,
`serve_stored`), and taking them changes nothing about them, since they were merged before. So a
request that is served from a store gets the weights of the request that wrote it, and those are its
own if the numbers of the grids are the same (`serve_first`). If these are close only, they need not
be (`serve_first_near`).

A store of binary numbers is one over any scalars (`reuse_toDataset`).
-/

namespace Regrid

/-! ## Matrices -/

namespace SparseMatrix

variable {α : Type}

theorem ofShape_whole (rows cols : Nat) :
    (ofShape [.whole rows, .whole cols] : Except Error (SparseMatrix α)) =
      .ok (empty rows cols) := by
  have hbelow (n : Nat) : (Number.whole n).below 0 = false := by
    rw [Bool.eq_false_iff, Ne, Number.below_iff (x := .whole n) rfl]
    simp
  unfold ofShape
  simp only [hbelow, Bool.or_self, Bool.false_eq_true, if_false]
  rfl

/-- Entries that lie inside are added by their rows, columns and values. -/
theorem addEntries_of_fits {m : SparseMatrix α} {es : List (Entry α)}
    (h : ∀ e ∈ es, e.row < m.rows ∧ e.col < m.cols) :
    m.addEntries (es.map fun e => (e.row : Int)) (es.map fun e => (e.col : Int))
      (es.map Entry.value) = .ok { m with entries := m.entries ++ es } := by
  have hrows := (checkBounds_eq_ok "matrix rows").mpr (List.forall_mem_map.mpr fun e he =>
    ⟨Int.natCast_nonneg e.row, Int.ofNat_lt.mpr (h e he).1⟩)
  have hcols := (checkBounds_eq_ok "matrix columns").mpr (List.forall_mem_map.mpr fun e he =>
    ⟨Int.natCast_nonneg e.col, Int.ofNat_lt.mpr (h e he).2⟩)
  have hzip : ((es.map fun e => (e.row : Int)).zip
      ((es.map fun e => (e.col : Int)).zip (es.map Entry.value))).map
        (fun t => (⟨t.1.toNat, t.2.1.toNat, t.2.2⟩ : Entry α)) = es := by
    rw [List.zip_map', List.zip_map', List.map_map]
    exact List.map_id _
  unfold addEntries
  rw [if_pos (by simp only [List.length_map, and_self]), hrows, hcols]
  simp only [bind_ok]
  exact congrArg (fun new => Except.ok { m with entries := m.entries ++ new }) hzip

theorem addEntries_of_not_fits {m : SparseMatrix α} {es : List (Entry α)}
    (h : ¬ ∀ e ∈ es, e.row < m.rows ∧ e.col < m.cols) :
    ∃ e, m.addEntries (es.map fun e => (e.row : Int)) (es.map fun e => (e.col : Int))
      (es.map Entry.value) = .error e := by
  unfold addEntries
  rw [if_pos (by simp only [List.length_map, and_self])]
  cases hrows : checkBounds (es.map fun e => (e.row : Int)) m.rows "matrix rows" with
  | error e => exact ⟨e, rfl⟩
  | ok u =>
  cases hcols : checkBounds (es.map fun e => (e.col : Int)) m.cols "matrix columns" with
  | error e => exact ⟨e, rfl⟩
  | ok u =>
  refine absurd (fun e he => ⟨?_, ?_⟩) h
  · exact Int.ofNat_lt.mp ((checkBounds_eq_ok _).mp hrows _ (List.mem_map_of_mem he)).2
  · exact Int.ofNat_lt.mp ((checkBounds_eq_ok _).mp hcols _ (List.mem_map_of_mem he)).2

end SparseMatrix

namespace Regridder

section Serve

variable {α : Type} [Trigonometry α] (r : Regridder α)

theorem matrix_eq : r.stored.matrix = (SparseMatrix.empty r.weights.rows r.weights.cols).addEntries
    (r.weights.entries.map fun e => (e.row : Int)) (r.weights.entries.map fun e => (e.col : Int))
    (r.weights.entries.map Entry.value) := by
  have hback (f : Entry α → Nat) : (r.weights.entries.map fun e => (f e : Int) + 1).map (· - 1) =
      r.weights.entries.map fun e => (f e : Int) := by
    rw [List.map_map]
    exact List.map_congr_left fun e _ => add_sub_cancel_right _ _
  unfold StoredWeights.matrix stored
  simp only [SparseMatrix.ofShape_whole, bind_ok, hback]

/-- **What was stored is read back**, or refused if an entry lies outside. -/
theorem matrix_stored : r.weights.InBounds ∧ r.stored.matrix = .ok r.weights ∨
    ¬ r.weights.InBounds ∧ ∃ e, r.stored.matrix = .error e := by
  rw [matrix_eq]
  by_cases h : r.weights.InBounds
  · exact Or.inl ⟨h, SparseMatrix.addEntries_of_fits h⟩
  · exact Or.inr ⟨h, SparseMatrix.addEntries_of_not_fits h⟩

/-! ## Requests that stored weights fit -/

/-- Whether the weights of a regridder fit a request. -/
structure Fits (grids : GridPair α) (options : RegridOptions α) : Prop where
  number : ∀ (role : GridRole) (k : GridNumber),
    LatLon.close (k.of (role.of r.grids)) (k.of (role.of grids)) = true
  rows : r.weights.rows = grids.target.size
  cols : r.weights.cols = grids.source.size
  skipMissing : r.options.skipMissing = options.skipMissing
  threshold : ¬ Scalar.ratio 1 1000000 < Scalar.abs (r.options.threshold - options.threshold)
  polarMean : r.options.polarMean = options.polarMean

theorem checkGrid_eq_ok (role : GridRole) (g : LatLon α) : r.provenance.checkGrid role g = .ok () ↔
    ∀ k : GridNumber, LatLon.close (k.of (role.of r.grids)) (k.of g) = true := by
  have hread : (GridNumber.all.mapM fun k => do
      let x ← r.provenance.number role k
      return (k, x)) = .ok (GridNumber.all.map fun k => (k, k.of (role.of r.grids))) :=
    mapM_ok fun k _ => rfl
  have hall : ∀ k : GridNumber, k ∈ GridNumber.all := by
    intro k
    cases k <;> decide
  have hclose : ((GridNumber.all.map fun k => (k, k.of (role.of r.grids))).zip
      (GridNumber.all.map fun k => (k, k.of g))).all (fun t => LatLon.close t.1.2 t.2.2) = true ↔
        ∀ k : GridNumber, LatLon.close (k.of (role.of r.grids)) (k.of g) = true := by
    rw [List.zip_map', List.all_map, List.all_eq_true]
    exact ⟨fun h k => h k (hall k), fun h k _ => h k⟩
  unfold Provenance.checkGrid
  rw [hread, bind_ok]
  simp only
  split_ifs with h
  · exact iff_of_true rfl (hclose.mp h)
  · exact iff_of_false not_false (mt hclose.mpr h)

theorem checkOptions_eq_ok (options : RegridOptions α) :
    r.provenance.checkOptions options = .ok () ↔ r.options.skipMissing = options.skipMissing ∧
      ¬ Scalar.ratio 1 1000000 < Scalar.abs (r.options.threshold - options.threshold) ∧
      r.options.polarMean = options.polarMean := by
  unfold Provenance.checkOptions
  simp only [provenance, Option.getD_some, bne_iff_ne, ne_eq, bind_ok]
  by_cases hskip : r.options.skipMissing = options.skipMissing
  · by_cases hthreshold :
        Scalar.ratio 1 1000000 < Scalar.abs (r.options.threshold - options.threshold)
    · rw [if_neg (not_not.mpr hskip), if_pos hthreshold]
      exact iff_of_false error_ne_ok fun h => h.2.1 hthreshold
    · by_cases hpolar : r.options.polarMean = options.polarMean
      · rw [if_neg (not_not.mpr hskip), if_neg hthreshold, if_neg (not_not.mpr hpolar)]
        exact iff_of_true rfl ⟨hskip, hthreshold, hpolar⟩
      · rw [if_neg (not_not.mpr hskip), if_neg hthreshold, if_pos hpolar]
        exact iff_of_false error_ne_ok fun h => hpolar h.2.2
  · rw [if_pos hskip]
    exact iff_of_false error_ne_ok fun h => hskip h.1

variable {r}

/-- **Weights are accepted** just for the requests they fit. -/
theorem ofStored_eq_ok {grids : GridPair α} {options : RegridOptions α} {r' : Regridder α} :
    ofStored grids options r.weights r.provenance = .ok r' ↔
      r.Fits grids options ∧ r' = ofMatrix grids options r.weights := by
  unfold ofStored
  constructor
  · intro h
    obtain ⟨_, hsource, h⟩ := bind_eq_ok.mp h
    obtain ⟨_, htarget, h⟩ := bind_eq_ok.mp h
    split_ifs at h with hsize
    · obtain ⟨_, hoptions, h⟩ := bind_eq_ok.mp h
      cases h
      obtain ⟨hskip, hthreshold, hpolar⟩ := (r.checkOptions_eq_ok options).mp hoptions
      refine ⟨⟨fun role => ?_, hsize.1, hsize.2, hskip, hthreshold, hpolar⟩, rfl⟩
      cases role
      · exact (r.checkGrid_eq_ok .source grids.source).mp hsource
      · exact (r.checkGrid_eq_ok .target grids.target).mp htarget
    · cases h
  · rintro ⟨h, rfl⟩
    have hsource := (r.checkGrid_eq_ok .source grids.source).mpr (h.number .source)
    have htarget := (r.checkGrid_eq_ok .target grids.target).mpr (h.number .target)
    have hoptions := (r.checkOptions_eq_ok options).mpr ⟨h.skipMissing, h.threshold, h.polarMean⟩
    rw [hsource, bind_ok, htarget, bind_ok, if_pos ⟨h.rows, h.cols⟩, hoptions]
    rfl

/-- **A request is served from a store** just if what is stored lies inside and fits. -/
theorem serve_stored {grids : GridPair α} {options : RegridOptions α} {blocks : Option Int}
    {r' : Regridder α} {s : StoredWeights α} :
    serve grids options blocks (some r.stored) = .ok (r', s) ↔ r.weights.InBounds ∧
      r.Fits grids options ∧ r' = ofMatrix grids options r.weights ∧ s = r.stored := by
  have hreturn : serve grids options blocks (some r.stored) = .ok (r', s) ↔
      ofWeights grids options r.stored = .ok r' ∧ s = r.stored := by
    refine bind_eq_ok.trans ⟨?_, ?_⟩
    · rintro ⟨x, hx, hpair⟩
      cases hpair
      exact ⟨hx, rfl⟩
    · rintro ⟨hx, rfl⟩
      exact ⟨r', hx, rfl⟩
  rw [hreturn]
  unfold ofWeights
  rcases r.matrix_stored with ⟨hbounds, hmatrix⟩ | ⟨hbounds, e, hmatrix⟩
  · have hread : (do
        let m ← r.stored.matrix
        ofStored grids options m r.stored.provenance) = .ok r' ↔
          r.Fits grids options ∧ r' = ofMatrix grids options r.weights := by
      rw [hmatrix, bind_ok]
      exact ofStored_eq_ok
    rw [hread, and_assoc]
    exact ⟨fun h => ⟨hbounds, h⟩, And.right⟩
  · rw [hmatrix]
    exact iff_of_false (fun h => nomatch h.1) fun h => hbounds h.1

/-- A regridder has merged weights, which are the same for every request they are taken for. -/
theorem ofMatrix_weights (grids grids' : GridPair α) (options options' : RegridOptions α)
    (m : SparseMatrix α) :
    ofMatrix grids' options' (ofMatrix grids options m).weights =
      { ofMatrix grids options m with grids := grids', options := options' } := by
  unfold ofMatrix
  simp only [SparseMatrix.sumDuplicates_idem]

theorem remap_eq {first second : GridPair α} (h : ∀ role : GridRole,
    (role.of first).columns = (role.of second).columns ∧
      (role.of first).rows = (role.of second).rows ∧
      (role.of first).offset = (role.of second).offset ∧
      (role.of first).spacing = (role.of second).spacing) : first.remap = second.remap := by
  have hlattice (role : GridRole) : (role.of first).lattice = (role.of second).lattice := by
    obtain ⟨hcolumns, hrows, hoffset, hspacing⟩ := h role
    unfold LatLon.lattice
    rw [hcolumns, hrows, hoffset, hspacing]
  exact congrArg₂ Remap.mk (hlattice .source) (hlattice .target)

/-- **A request that is served from the store of another one** gets its weights. They are those that
the request would make for itself if the numbers of the grids are the same. It is refused if
the numbers are not close or the options differ, and only then, unless the operator that was stored
has an entry outside of the grids. -/
theorem serve_first (first second : GridPair α) (options₁ options₂ : RegridOptions α) :
    ∃ r₁, serve first options₁ none none = .ok (r₁, r₁.stored) ∧
      ((∃ e, serve second options₂ none (some r₁.stored) = .error e) ∨
        ∃ r₂, serve second options₂ none (some r₁.stored) = .ok (r₂, r₁.stored) ∧
          r₁.Fits second options₂ ∧
          (∀ row col, r₂.weights.dense row col = r₁.weights.dense row col) ∧
          ((∀ role : GridRole, (role.of first).columns = (role.of second).columns ∧
              (role.of first).rows = (role.of second).rows ∧
              (role.of first).offset = (role.of second).offset ∧
              (role.of first).spacing = (role.of second).spacing) →
            serve second options₂ none none = .ok (r₂, r₂.stored))) ∧
      (first.remap.unitOperator.InBounds → r₁.Fits second options₂ →
        ∃ r₂, serve second options₂ none (some r₁.stored) = .ok (r₂, r₁.stored)) := by
  have hserved := ofMatrix_weights first second options₁ options₂ first.remap.unitOperator
  refine ⟨ofMatrix first options₁ first.remap.unitOperator, rfl, ?_, fun hbounds hfits =>
    ⟨_, serve_stored.mpr ⟨hbounds.sumDuplicates, hfits, rfl, rfl⟩⟩⟩
  cases hserve : serve second options₂ none
      (some (ofMatrix first options₁ first.remap.unitOperator).stored) with
  | error e => exact Or.inl ⟨e, rfl⟩
  | ok p =>
    obtain ⟨-, hfits, hr, hs⟩ := serve_stored.mp hserve
    rw [hserved] at hr
    refine Or.inr ⟨p.1, ?_, hfits, fun row col => by rw [hr], fun hsame => ?_⟩
    · rw [← hs]
    · rw [hr, remap_eq hsame]
      rfl

end Serve

/-! ## Binary numbers -/

section Dataset

theorem isTrue_storedFlag (b : Bool) : (storedFlag b).isTrue = b := by
  cases b <;> rfl

variable (r : Regridder Float)

theorem get?_toDataset (key : String) : r.toDataset.attributes.get? key = valueAt? key
    ([("n_dst", .int r.weights.rows), ("n_src", .int r.weights.cols)] ++ r.settings) := by
  simp [toDataset, SparseMatrix.toDataset, settings, gridSettings, LatLon.attributes,
    GridRole.setting, GridRole.mark, Attributes.get?, assignKeys, assignKey]

/-- A store says about the weights in it what their regridder does. -/
theorem ofAttributes_toDataset :
    Provenance.ofAttributes r.toDataset.attributes = r.provenance := by
  have hnumber (role : GridRole) (k : GridNumber) :
      (r.toDataset.attributes.get? (role.setting k.name)).elim (.ok Scalar.undefined) Datum.toFloat
        = .ok (k.of (role.of r.grids)) := by
    rw [get?_toDataset]
    cases role <;> cases k <;>
      simp [settings, gridSettings, LatLon.attributes, GridRole.setting, GridRole.mark,
        GridNumber.name, valueAt?] <;> rfl
  simp only [Provenance.ofAttributes, provenance, hnumber, Provenance.mk.injEq, true_and]
  simp [get?_toDataset, settings, gridSettings, LatLon.attributes, GridRole.setting, GridRole.mark,
    valueAt?, isTrue_storedFlag]
  exact ⟨rfl, rfl⟩

/-- Indices of 64 bits are read as they were stored. -/
theorem mapM_storedIndex {ns : List Nat} (h : ∀ n ∈ ns, n < 2 ^ 63) :
    (ns.map fun n : Nat => Number.whole ((n : Int) + 1)).mapM SparseMatrix.storedIndex =
      .ok (ns.map fun n : Nat => (n : Int)) := by
  refine mapM_map_ok fun n hn => ?_
  have hn := h n hn
  have hbits : Number.inInt64 n = true := Number.inInt64_iff.mpr ⟨by omega, by exact_mod_cast hn⟩
  show (Number.whole ((n : Int) + 1 - 1)).toIdentifier = _
  rw [add_sub_cancel_right]
  exact Number.toIdentifier_whole hbits

/-- **The matrix of a dataset** is the one that was stored. -/
theorem ofDataset_toDataset_weights
    (hsmall : ∀ e ∈ r.weights.entries, e.row < 2 ^ 63 ∧ e.col < 2 ^ 63) :
    SparseMatrix.ofDataset r.toDataset = r.stored.matrix := by
  have hrows : r.toDataset.attributes.get "n_dst" = .ok (.int r.weights.rows) := by
    rw [Attributes.get, get?_toDataset]
    rfl
  have hcols : r.toDataset.attributes.get "n_src" = .ok (.int r.weights.cols) := by
    rw [Attributes.get, get?_toDataset]
    rfl
  have hintegers (f : Entry Float → Nat) :
      ((r.weights.entries.map fun e => (f e : Int) + 1).map Number.whole).toArray.toList =
        (r.weights.entries.map f).map fun n : Nat => Number.whole ((n : Int) + 1) := by
    rw [List.map_map, List.map_map]
    rfl
  have hrow : SparseMatrix.storedVector r.toDataset "row" =
      .ok ((r.weights.entries.map Entry.row).map fun n : Nat => Number.whole ((n : Int) + 1)) :=
    congrArg Except.ok (hintegers Entry.row)
  have hcol : SparseMatrix.storedVector r.toDataset "col" =
      .ok ((r.weights.entries.map Entry.col).map fun n : Nat => Number.whole ((n : Int) + 1)) :=
    congrArg Except.ok (hintegers Entry.col)
  have hvalue : SparseMatrix.storedVector r.toDataset "S" =
      .ok ((r.weights.entries.map Entry.value).map Number.real) := by
    show Except.ok ((r.weights.entries.map Entry.value).toArray.map Number.real).toList = _
    simp
  have hfloats : ((r.weights.entries.map Entry.value).map Number.real).map Number.toFloat =
      r.weights.entries.map Entry.value := by
    rw [List.map_map]
    exact List.map_id _
  have hrowIndex := mapM_storedIndex (List.forall_mem_map.mpr fun e he => (hsmall e he).1)
  have hcolIndex := mapM_storedIndex (List.forall_mem_map.mpr fun e he => (hsmall e he).2)
  rw [matrix_eq]
  unfold SparseMatrix.ofDataset
  rw [hrows, hcols, hrow, hcol, hvalue]
  have hint (n : Nat) : (Datum.int n).toInt = .ok (n : Int) := rfl
  simp only [bind_ok, hint, SparseMatrix.ofShape_whole, hrowIndex, hcolIndex, hfloats]
  rw [List.map_map, List.map_map]
  rfl

/-- **Reusing the weights of a dataset** is being served from the store. -/
theorem reuse_toDataset (grids : GridPair Float) (options : RegridOptions Float)
    (blocks : Option Int) (hsmall : ∀ e ∈ r.weights.entries, e.row < 2 ^ 63 ∧ e.col < 2 ^ 63) :
    (reuse grids options blocks (some r.toDataset)).map Prod.fst =
      (serve grids options blocks (some r.stored)).map Prod.fst := by
  have hread : ofDataset grids options r.toDataset = ofWeights grids options r.stored := by
    unfold ofDataset ofWeights
    rw [r.ofDataset_toDataset_weights hsmall, ofAttributes_toDataset]
    rfl
  unfold reuse serve
  simp only [hread]
  cases ofWeights grids options r.stored <;> rfl

end Dataset

/-! ## Two grids that are close -/

section Examples

attribute [local instance] smallAngles

/-- Two columns of one row that begin a column east of the date line, to two that begin there. -/
def shifted : GridPair Rat := ⟨⟨2, 1, 1, 10800, 1⟩, ⟨2, 1, 0, 10800, 1⟩⟩

/-- The same, but the source lies five millionths of a column further east. -/
def nearlyShifted : GridPair Rat := { shifted with source.offset := 1 + 5 / 1000000 }

/-- **Close is not the same**: the weights of a source that lies a little further east are taken for
the other one, and they are not its own. -/
theorem serve_first_near : ∃ r₁ r₂ r : Regridder Rat,
    serve nearlyShifted ⟨false, 1, false⟩ none none = .ok (r₁, r₁.stored) ∧
    serve shifted ⟨false, 1, false⟩ none (some r₁.stored) = .ok (r₂, r₁.stored) ∧
    serve shifted ⟨false, 1, false⟩ none none = .ok (r, r.stored) ∧
    r₂.weights.dense 0 0 = 5 / 1000000 ∧ r.weights.dense 0 0 = 0 := by
  have hbounds : nearlyShifted.remap.unitOperator.InBounds := by decide +kernel
  have hfits : (ofMatrix nearlyShifted ⟨false, 1, false⟩ nearlyShifted.remap.unitOperator).Fits
      shifted ⟨false, 1, false⟩ :=
    { number := fun role k => by cases role <;> cases k <;> decide +kernel
      rows := by decide +kernel
      cols := by decide +kernel
      skipMissing := rfl
      threshold := by decide +kernel
      polarMean := rfl }
  have hserved := ofMatrix_weights nearlyShifted shifted ⟨false, 1, false⟩ ⟨false, 1, false⟩
    nearlyShifted.remap.unitOperator
  refine ⟨_, _, _, rfl, serve_stored.mpr ⟨hbounds.sumDuplicates, hfits, rfl, rfl⟩, rfl, ?_, ?_⟩
  · rw [hserved]
    exact (SparseMatrix.dense_sumDuplicates _ 0 0).trans (by decide +kernel)
  · exact (SparseMatrix.dense_sumDuplicates _ 0 0).trans (by decide +kernel)

end Examples

end Regridder

end Regrid

import Regrid.Mesh.Restore
import Regrid.Proofs.Mesh.Store
import Regrid.Proofs.Range

/-!
# Reading what was written

If a dataset has the variables of a mesh (`Mesh.StoredIn`), the parts of the mesh are read from it:
its settings (`ofInfo_settings`), and its vertices and cells by identifier (`readVertices_eq`,
`readCells_eq`). Vertices and cells are read one after the other, so the two readers are folds, and
the lemmas about them say what is done when `k` entities have been read. The vertices of a cell are
those between two offsets; `partOf_middle` finds them behind the references read so far.
-/

namespace Regrid

/-! ## Settings -/

namespace Coded

theorem ofCode_kind (s : MeshKind) : ofCode (code s) = .ok s := by cases s <;> rfl

theorem ofCode_coordinates (s : CoordinateSystem) : ofCode (code s) = .ok s := by cases s <;> rfl

theorem ofCode_parameterization (s : Parameterization) : ofCode (code s) = .ok s := by
  cases s <;> rfl

end Coded

theorem Datum.toInt_int (n : Int) : (Datum.int n).toInt = .ok n := rfl

namespace Mesh

/-- The mesh that is read back: the entities in order, and the sizes fixed. -/
def restored (m : Mesh Float) : Mesh Float :=
  { name := m.name
    kind := m.kind
    coordinates := m.coordinates
    parameterization := m.parameterization
    projection := m.storedProjection?
    vertices := (({ what := "vertex" } : Roster (Vertex Float)).extend m.vertices.sorted).setFull
      m.vertices.full
    cells := (({ what := "cell" } : Roster (Cell Float)).extend m.cells.sorted).setFull
      m.cells.full }

theorem get?_projection {α : Type} (m : Mesh α) :
    m.settings.get? "projection" = m.storedProjection?.map .text := by
  unfold settings Attributes.get?
  cases m.storedProjection? with
  | some s => simp [valueAt?_cons]
  | none =>
    have hcomments : ∀ p, "projection" ∉ (storeComments.filter p).map Prod.fst := fun p h =>
      absurd ((List.filter_sublist.map Prod.fst).subset h) (by decide)
    refine valueAt?_eq_none fun h => ?_
    rw [List.map_append, List.mem_append, or_iff_left (hcomments _)] at h
    revert h
    simp [cellsFullKey, verticesFullKey]

theorem storedProjection_ne {α : Type} {m : Mesh α} {s : String}
    (h : m.storedProjection? = some s) : m.coordinates = .plane ∧ s ≠ "" := by
  unfold storedProjection? at h
  split at h
  · split at h
    · cases h
    · cases h
      exact ⟨‹_›, ‹_›⟩
  · cases h

/-- **Stored settings** are read as they were. -/
theorem ofInfo_settings (m : Mesh Float) (store : String) : ofInfo m.settings store =
    .ok { name := m.name, kind := m.kind, coordinates := m.coordinates,
          parameterization := m.parameterization, projection := m.storedProjection? } := by
  have hversion : m.settings.get? "version" = some (.int storeVersion) := by
    simp [settings, Attributes.get?, valueAt?_cons]
  have hkind : m.settings.get "type" = .ok (.int (Coded.code m.kind)) := by
    simp [settings, Attributes.get, Attributes.get?, valueAt?_cons]
  have hcoordinates : m.settings.get "coordinates" = .ok (.int (Coded.code m.coordinates)) := by
    simp [settings, Attributes.get, Attributes.get?, valueAt?_cons]
  have hparameterization : m.settings.get "parameterization" =
      .ok (.int (Coded.code m.parameterization)) := by
    simp [settings, Attributes.get, Attributes.get?, valueAt?_cons]
  have hname : m.settings.get? "name" = some (.text m.name) := by
    simp [settings, Attributes.get?, valueAt?_cons]
  unfold ofInfo
  simp only [hversion, hkind, hcoordinates, hparameterization, hname, Option.getD_some,
    Datum.toInt_int, bind_ok, Coded.ofCode_kind, Coded.ofCode_coordinates,
    Coded.ofCode_parameterization, if_true]
  rw [get?_projection]
  cases h : m.storedProjection? with
  | none => cases m.coordinates <;> rfl
  | some s =>
    obtain ⟨hplane, hs⟩ := storedProjection_ne h
    have htrue : (Datum.text s).isTrue = true := by simp [Datum.isTrue, hs]
    rw [hplane, Option.map_some]
    simp only [htrue, if_true]
    rfl

/-- A mesh of stored settings still has new rosters. -/
theorem rosters_of_ofInfo {m : Mesh Float} {info : Attributes} {store : String}
    (h : ofInfo info store = .ok m) :
    m.vertices = { what := "vertex" } ∧ m.cells = { what := "cell" } := by
  unfold ofInfo at h
  simp only [bind_eq_ok] at h
  obtain ⟨version, -, h⟩ := h
  split at h
  · simp only [bind_eq_ok] at h
    obtain ⟨_, -, _, -, _, -, _, -, _, -, _, -, _, -, _, -, _, -, h⟩ := h
    cases h
    exact ⟨rfl, rfl⟩
  · obtain ⟨_, hthrow, -⟩ := bind_eq_ok.mp h
    cases hthrow

end Mesh

namespace Variable

theorem shape_integers (dim : String) (ns : List Int) :
    (integers dim ns).values.shape = [ns.length] := by
  unfold integers Tensor.ofArray
  simp

theorem toList_integers (dim : String) (ns : List Int) :
    (integers dim ns).values.values.toList = ns.map Number.whole := rfl

theorem length_integers (dim : String) (ns : List Int) :
    (integers dim ns).length = .ok ns.length := by
  rw [length, shape_integers]
  rfl

theorem vector_integers (dim : String) (ns : List Int) :
    (integers dim ns).vector = .ok (ns.map Number.whole) := by
  rw [vector, shape_integers]
  rfl

theorem any_isReal_integers (dim : String) (ns : List Int) :
    (integers dim ns).values.values.any Number.isReal = false := by
  rw [← Array.any_toList, toList_integers, List.any_map]
  exact List.any_eq_false.mpr fun _ _ => Bool.false_ne_true

end Variable

theorem storedVariable_eq {ds : Dataset} {name : String} {v : Variable}
    (h : ds.get? name = some v) : storedVariable ds name = .ok v := by
  rw [storedVariable, h]

theorem checkShape_eq {v : Variable} {expected : List Nat} (h : v.values.shape = expected)
    (name : String) : checkShape v name expected = .ok () := if_pos h

/-! ## Vertices -/

namespace Mesh

variable {m : Mesh Float}

theorem addStoredVertex_eq {v : Vertex Float} (h : 0 ≤ v.index) (hnew : v.index ∉ m.vertices.keys) :
    m.addStoredVertex (.whole v.index) v.x v.y =
      .ok { m with vertices := m.vertices.extend [v] } := by
  unfold addStoredVertex addVertex
  rw [Number.toInt_whole, bind_ok, Roster.add_eq h hnew]
  rfl

/-- Vertices are read one after the other; `k` of them are read already. -/
theorem foldlM_addStoredVertex (points : Variable) : ∀ (vs : List (Vertex Float)) (k : Nat)
    {m : Mesh Float}, (∀ v ∈ vs, 0 ≤ v.index) → (m.vertices.keys ++ vs.map Vertex.index).Nodup →
    (∀ i v, vs[i]? = some v → points.valueAt (2 * (k + i)) = .real v.x ∧
      points.valueAt (2 * (k + i) + 1) = .real v.y) →
    ((vs.map fun v => Number.whole v.index).zipIdx k).foldlM (fun m (id, i) =>
        m.addStoredVertex id (points.valueAt (2 * i)).toFloat (points.valueAt (2 * i + 1)).toFloat)
      m = .ok { m with vertices := m.vertices.extend vs }
  | [], _, m, _, _, _ => by
    rw [Roster.extend_nil]
    rfl
  | v :: vs, k, m, hnonneg, hnodup, hpoints => by
    obtain ⟨hx, hy⟩ := hpoints 0 v rfl
    have hnew : v.index ∉ m.vertices.keys := fun hmem =>
      (List.nodup_append.mp hnodup).2.2 _ hmem _ List.mem_cons_self rfl
    have hrest : ((m.vertices.extend [v]).keys ++ vs.map Vertex.index).Nodup := by
      simpa [Roster.keys, Roster.extend, Numbered.index] using hnodup
    have hstep : m.addStoredVertex (.whole v.index) (points.valueAt (2 * k)).toFloat
        (points.valueAt (2 * k + 1)).toFloat =
          .ok { m with vertices := m.vertices.extend [v] } := by
      simp only [Nat.add_zero] at hx hy
      rw [hx, hy]
      exact addStoredVertex_eq (hnonneg v List.mem_cons_self) hnew
    have hnext : ∀ i w, vs[i]? = some w → points.valueAt (2 * (k + 1 + i)) = .real w.x ∧
        points.valueAt (2 * (k + 1 + i) + 1) = .real w.y := by
      intro i w hw
      have := hpoints (i + 1) w hw
      rwa [show k + (i + 1) = k + 1 + i by omega] at this
    rw [List.map_cons, List.zipIdx_cons, List.foldlM_cons, Roster.extend_cons]
    exact (bind_of_ok hstep _).trans (foldlM_addStoredVertex points vs (k + 1)
      (fun w hw => hnonneg w (List.mem_cons_of_mem v hw)) hrest hnext)

/-- A dataset has the variables of a mesh. -/
def StoredIn (m : Mesh Float) (store : String) (ds : Dataset) : Prop :=
  ∀ p ∈ m.storedVariables store, ds.get? p.1 = some p.2

/-- **Stored vertices** are read in order. -/
theorem readVertices_eq (h : m.vertices.Sound) {ds : Dataset} {store : String}
    (hstored : m.StoredIn store ds) (m₀ : Mesh Float) (hempty : m₀.vertices.items = []) :
    m₀.readVertices ds ⟨store⟩ =
      .ok { m₀ with vertices := m₀.vertices.extend m.vertices.sorted } := by
  unfold StoredIn storedVariables at hstored
  simp only [List.forall_mem_cons] at hstored
  obtain ⟨-, hindex, hpoints, -⟩ := hstored
  have hvalues : ∀ (i t : Nat) v, m.vertices.sorted[i]? = some v → (ht : t < 2) →
      (Variable.reals [StoreNames.vertexDim ⟨store⟩, "two"] [m.vertices.sorted.length, 2]
        (m.vertices.sorted.flatMap fun v => [v.x, v.y]).toArray).valueAt (2 * i + t) =
        .real [v.x, v.y][t] := by
    intro i t v hv ht
    unfold Variable.valueAt Variable.reals
    rw [Array.getD_eq_getD_getElem?, Array.getElem?_map, List.getElem?_toArray,
      getElem?_flatMap_rows (n := 2) (fun _ => rfl) ht, hv, Option.bind_some,
      List.getElem?_eq_getElem ht]
    rfl
  have hnodup : (m₀.vertices.keys ++ m.vertices.sorted.map Vertex.index).Nodup := by
    rw [Roster.keys, hempty]
    exact Roster.keys_sorted_nodup h
  have hread := foldlM_addStoredVertex (.reals [StoreNames.vertexDim ⟨store⟩, "two"]
    [m.vertices.sorted.length, 2] (m.vertices.sorted.flatMap fun v => [v.x, v.y]).toArray)
    m.vertices.sorted 0 (m := m₀) (fun v hv => h.nonneg v (Roster.mem_sorted.mp hv)) hnodup
    fun i v hv => by
      rw [Nat.zero_add]
      exact ⟨hvalues i 0 v hv (by decide), hvalues i 1 v hv (by decide)⟩
  unfold readVertices
  rw [storedVariable_eq hindex, bind_ok, storedVariable_eq hpoints, bind_ok,
    Variable.length_integers, bind_ok, checkShape_eq (by rw [List.length_map]; rfl), bind_ok,
    Variable.vector_integers, bind_ok, List.map_map]
  exact hread

end Mesh

/-! ## Offsets -/

open Ticket (startsOf)

theorem startsOf_cons (start n : Nat) (ns : List Nat) :
    startsOf start (n :: ns) = start :: startsOf (start + n) ns := rfl

/-- Offsets begin where they are to. -/
theorem exists_startsOf (start : Nat) (ns : List Nat) :
    ∃ rest, startsOf start ns = start :: rest := by
  cases ns with
  | nil => exact ⟨[], rfl⟩
  | cons n ns => exact ⟨_, rfl⟩

/-- Each offset and the next one. -/
theorem zip_drop_startsOf (start n : Nat) (ns : List Nat) :
    (startsOf start (n :: ns)).zip ((startsOf start (n :: ns)).drop 1) =
      (start, start + n) ::
        (startsOf (start + n) ns).zip ((startsOf (start + n) ns).drop 1) := by
  obtain ⟨rest, hrest⟩ := exists_startsOf (start + n) ns
  rw [startsOf_cons, hrest]
  rfl

theorem getLast?_startsOf : ∀ (start : Nat) (ns : List Nat),
    (startsOf start ns).getLast? = some (start + ns.sum)
  | start, [] => rfl
  | start, n :: ns => by
    obtain ⟨rest, hrest⟩ := exists_startsOf (start + n) ns
    have ih := getLast?_startsOf (start + n) ns
    rw [startsOf_cons, hrest, List.getLast?_cons_cons, ← hrest, ih, List.sum_cons, Nat.add_assoc]

/-- No offset is below the one before it, as long as they fit into 64 bits. -/
theorem not_decreases_startsOf : ∀ (start : Nat) (ns : List Nat), start + ns.sum < 2 ^ 63 →
    ∀ p ∈ (startsOf start ns).zip ((startsOf start ns).drop 1),
      decreases (.whole p.1) (.whole p.2) = false
  | _, [], _, p, hp => absurd hp List.not_mem_nil
  | start, n :: ns, hsum, p, hp => by
    rw [List.sum_cons] at hsum
    rw [zip_drop_startsOf] at hp
    rcases List.mem_cons.mp hp with rfl | hp
    · have hdiff : ((start + n : Nat) : Int) - (start : Nat) = (n : Int) := by omega
      have hmod : ((n : Int)).bmod (Decimal.twoTo 64) = n := by
        have htwo : (Decimal.twoTo 64 : Int) = 2 ^ 64 := rfl
        exact Int.bmod_eq_of_le (by omega) (by omega)
      unfold decreases
      simp only [hdiff, hmod]
      simp
    · exact not_decreases_startsOf (start + n) ns (by omega) p hp

theorem checkOffsets_startsOf {ns : List Nat} (h : ns.sum < 2 ^ 63) (name : String) :
    checkOffsets ((startsOf 0 ns).map fun n : Nat => Number.whole n) ns.sum name = .ok () := by
  have hvalid : validOffsets ((startsOf 0 ns).map fun n : Nat => Number.whole n) ns.sum = true := by
    obtain ⟨rest, hrest⟩ := exists_startsOf 0 ns
    have hlast := getLast?_startsOf 0 ns
    have hdecreases := not_decreases_startsOf 0 ns (by omega)
    unfold validOffsets
    rw [← List.map_drop, List.zip_map, List.getLast?_map, hlast, List.head?_map, hrest]
    rw [hrest] at hdecreases
    simp only [Bool.and_eq_true, List.all_eq_true]
    refine ⟨⟨?_, ?_⟩, fun p hp => ?_⟩
    · rfl
    · rw [Nat.zero_add]
      show (some ((ns.sum : Int) : Rat) == some (ns.sum : Rat)) = true
      rw [Int.cast_natCast]
      exact beq_self_eq_true _
    · obtain ⟨q, hq, rfl⟩ := List.mem_map.mp hp
      simp [hdecreases q hq]
  exact if_pos hvalid

theorem lt_of_inInt64 {n : Nat} (h : Number.inInt64 n = true) : n < 2 ^ 63 := by
  have hn := (Number.inInt64_iff.mp h).2
  omega

/-! ## Cells -/

namespace Mesh

variable {m : Mesh Float}

theorem hasVertex_whole {α : Type} (m : Mesh α) (v : Int) :
    m.hasVertex (.whole v) = m.vertices.contains v := by
  unfold hasVertex Number.toRat?
  simp

theorem missingVertex?_eq_none {α : Type} {m : Mesh α} {refs : List Int}
    (h : ∀ v ∈ refs, v ∈ m.vertices.keys) : m.missingVertex? (refs.map .whole) = none := by
  unfold missingVertex?
  rw [List.find?_eq_none]
  intro r hr
  obtain ⟨v, hv, rfl⟩ := List.mem_map.mp hr
  rw [hasVertex_whole, Roster.contains_iff.mpr (h v hv)]
  decide

theorem addStoredCell_eq {c : Cell Float} (h : 0 ≤ c.index) (hnew : c.index ∉ m.cells.keys)
    (hrefs : ∀ v ∈ c.refs, v ∈ m.vertices.keys) :
    m.addStoredCell (c.refs.map .whole) (.whole c.index) (.whole c.i) (.whole c.j) (.whole c.k)
      c.nativeArea = .ok { m with cells := m.cells.extend [c] } := by
  have hnone := missingVertex?_eq_none hrefs
  have hcheck : m.checkVertices (c.refs.map .whole) = .ok () := by rw [checkVertices, hnone]
  unfold addStoredCell addCell
  simp only [Number.toInt_whole, Number.mapM_toInt_whole, bind_ok, hnone, hcheck]
  rw [Roster.add_eq h hnew]
  rfl

/-- The rows of two variables are the coordinates and the areas of cells, from row `k` on. -/
def RowsAre (ijk areas : Variable) (k : Nat) (cs : List (Cell Float)) : Prop :=
  ∀ i c, cs[i]? = some c → ijk.valueAt (3 * (k + i)) = .whole c.i ∧
    ijk.valueAt (3 * (k + i) + 1) = .whole c.j ∧ ijk.valueAt (3 * (k + i) + 2) = .whole c.k ∧
    areas.valueAt (k + i) = .real c.nativeArea

/-- The coordinates of cells are stored in rows of three. -/
theorem rowsAre_stored (cs : List (Cell Float)) (dims dims' : List String) :
    RowsAre ⟨dims, ⟨[cs.length, 3],
        ((cs.flatMap fun c => [c.i, c.j, c.k]).map Number.whole).toArray⟩, []⟩
      (.reals dims' [cs.length] (cs.map Cell.nativeArea).toArray) 0 cs := by
  intro i c hc
  have hrow : ∀ t (ht : t < 3), (((cs.flatMap fun c => [c.i, c.j, c.k]).map
      Number.whole).toArray).getD (3 * i + t) 0 = .whole [c.i, c.j, c.k][t] := by
    intro t ht
    rw [Array.getD_eq_getD_getElem?, List.getElem?_toArray, List.getElem?_map,
      getElem?_flatMap_rows (n := 3) (fun _ => rfl) ht, hc, Option.bind_some,
      List.getElem?_eq_getElem ht]
    rfl
  have harea : ((cs.map Cell.nativeArea).toArray.map Number.real).getD i 0 =
      .real c.nativeArea := by
    rw [Array.getD_eq_getD_getElem?, Array.getElem?_map, List.getElem?_toArray, List.getElem?_map,
      hc]
    rfl
  rw [Nat.zero_add]
  exact ⟨hrow 0 (by decide), hrow 1 (by decide), hrow 2 (by decide), harea⟩

theorem RowsAre.tail {ijk areas : Variable} {k : Nat} {c : Cell Float} {cs : List (Cell Float)}
    (h : RowsAre ijk areas k (c :: cs)) : RowsAre ijk areas (k + 1) cs := by
  intro i d hd
  have := h (i + 1) d hd
  rwa [show k + (i + 1) = k + 1 + i by omega] at this

/-- Where the references of each cell begin and end, behind `start` others. -/
def refSpans (start : Nat) (cs : List (Cell Float)) : List (Int × Int) :=
  let starts := startsOf start (cs.map fun c => c.refs.length)
  (starts.zip (starts.drop 1)).map fun p => (p.1, p.2)

theorem refSpans_cons (start : Nat) (c : Cell Float) (cs : List (Cell Float)) :
    refSpans start (c :: cs) =
      ((start : Int), ((start + c.refs.length : Nat) : Int)) ::
        refSpans (start + c.refs.length) cs := by
  unfold refSpans
  simp only [List.map_cons]
  rw [zip_drop_startsOf, List.map_cons]

/-- Cells are read one after the other; `k` of them are read already, and their references are
`before`. -/
theorem foldlM_addStoredCell {ijk areas : Variable} : ∀ (cs : List (Cell Float)) (k : Nat)
    (before : List Number) {m : Mesh Float}, (∀ c ∈ cs, 0 ≤ c.index) →
    (m.cells.keys ++ cs.map Cell.index).Nodup →
    (∀ c ∈ cs, ∀ v ∈ c.refs, v ∈ m.vertices.keys) → RowsAre ijk areas k cs →
    (((cs.map fun c => Number.whole c.index).zip (refSpans before.length cs)).zipIdx k).foldlM
        (fun m ((id, start, stop), i) => m.addStoredCell
          (partOf (before ++ (cs.flatMap Cell.refs).map Number.whole) start stop) id
          (ijk.valueAt (3 * i)) (ijk.valueAt (3 * i + 1)) (ijk.valueAt (3 * i + 2))
          (areas.valueAt i).toFloat) m = .ok { m with cells := m.cells.extend cs }
  | [], _, _, m, _, _, _, _ => by
    rw [Roster.extend_nil]
    rfl
  | c :: cs, k, before, m, hnonneg, hnodup, hrefs, hrows => by
    obtain ⟨hi, hj, hk, harea⟩ := hrows 0 c rfl
    have hnew : c.index ∉ m.cells.keys := fun hmem =>
      (List.nodup_append.mp hnodup).2.2 _ hmem _ List.mem_cons_self rfl
    have hrest : ((m.cells.extend [c]).keys ++ cs.map Cell.index).Nodup := by
      simpa [Roster.keys, Roster.extend, Numbered.index] using hnodup
    have hall : before ++ ((c :: cs).flatMap Cell.refs).map Number.whole =
        before ++ (c.refs.map Number.whole ++ (cs.flatMap Cell.refs).map Number.whole) := by
      rw [List.flatMap_cons, List.map_append]
    have hpart : partOf (before ++ ((c :: cs).flatMap Cell.refs).map Number.whole) before.length
        (before.length + c.refs.length : Nat) = c.refs.map Number.whole := by
      have := partOf_middle before (c.refs.map Number.whole)
        ((cs.flatMap Cell.refs).map Number.whole)
      rwa [List.length_map, ← hall] at this
    have hstep : m.addStoredCell (partOf (before ++ ((c :: cs).flatMap Cell.refs).map Number.whole)
        before.length (before.length + c.refs.length : Nat)) (.whole c.index)
        (ijk.valueAt (3 * k)) (ijk.valueAt (3 * k + 1)) (ijk.valueAt (3 * k + 2))
        (areas.valueAt k).toFloat = .ok { m with cells := m.cells.extend [c] } := by
      simp only [Nat.add_zero] at hi hj hk harea
      rw [hpart, hi, hj, hk, harea]
      exact addStoredCell_eq (hnonneg c List.mem_cons_self) hnew (hrefs c List.mem_cons_self)
    have ih := foldlM_addStoredCell cs (k + 1) (before ++ c.refs.map Number.whole)
      (m := { m with cells := m.cells.extend [c] })
      (fun d hd => hnonneg d (List.mem_cons_of_mem c hd)) hrest
      (fun d hd => hrefs d (List.mem_cons_of_mem c hd)) hrows.tail
    rw [List.length_append, List.length_map, List.append_assoc, ← hall] at ih
    rw [List.map_cons, refSpans_cons, List.zip_cons_cons, List.zipIdx_cons, List.foldlM_cons,
      Roster.extend_cons]
    exact (bind_of_ok hstep _).trans ih

/-- The offsets of the references, as they are stored. -/
def offsets (m : Mesh Float) : List Number :=
  (startsOf 0 (m.cells.sorted.map fun c => c.refs.length)).map fun n : Nat => .whole n

theorem sum_lengths (m : Mesh Float) :
    (m.cells.sorted.map fun c => c.refs.length).sum = m.refCount :=
  List.length_flatMap.symm.trans (length_sorted_refs m)

/-- Offsets of 64 bits are accepted. -/
theorem checkOffsets_offsets (h : m.refCount < 2 ^ 63) (name : String) :
    checkOffsets m.offsets m.refCount name = .ok () := by
  rw [← sum_lengths] at h ⊢
  exact checkOffsets_startsOf h name

/-- **Stored cells** are read in order, if their vertices are there and their offsets pass. -/
theorem readCells_eq (hcells : m.cells.Sound) (hresolved : m.Resolved) {ds : Dataset}
    {store : String} (hstored : m.StoredIn store ds) (m₀ : Mesh Float)
    (hempty : m₀.cells.items = []) (hvertices : ∀ v ∈ m.vertices.keys, v ∈ m₀.vertices.keys) :
    m₀.readCells ds ⟨store⟩ =
      (checkOffsets m.offsets m.refCount (StoreNames.starts ⟨store⟩) >>= fun _ =>
        .ok { m₀ with cells := m₀.cells.extend m.cells.sorted }) := by
  unfold StoredIn storedVariables at hstored
  simp only [List.forall_mem_cons] at hstored
  obtain ⟨-, -, -, hindex, hijk, hareas, hrefs, hstarts, -⟩ := hstored
  have hnodup : (m₀.cells.keys ++ m.cells.sorted.map Cell.index).Nodup := by
    rw [Roster.keys, hempty]
    exact Roster.keys_sorted_nodup hcells
  have hread := foldlM_addStoredCell m.cells.sorted 0 [] (m := m₀)
    (fun c hc => hcells.nonneg c (Roster.mem_sorted.mp hc)) hnodup
    (fun c hc v hv => hvertices v (hresolved c (Roster.mem_sorted.mp hc) v hv))
    (rowsAre_stored m.cells.sorted [StoreNames.cellDim ⟨store⟩, "three"]
      [StoreNames.cellDim ⟨store⟩])
  let starts := startsOf 0 (m.cells.sorted.map fun c => c.refs.length)
  have hstartsLength : (Variable.integers (StoreNames.startDim ⟨store⟩)
      (starts.map Int.ofNat)).values.shape = [m.cells.sorted.length + 1] := by
    rw [Variable.shape_integers, List.length_map, length_startsOf, List.length_map]
  have hoffsetsList : (starts.map Int.ofNat).map Number.whole = m.offsets := List.map_map
  have hspans : (starts.map Int.ofNat).zip ((starts.map Int.ofNat).drop 1) =
      refSpans 0 m.cells.sorted := by
    rw [← List.map_drop, List.zip_map]
    rfl
  unfold readCells
  rw [storedVariable_eq hindex, bind_ok, Variable.length_integers, bind_ok, storedVariable_eq hijk,
    bind_ok, storedVariable_eq hareas, bind_ok, storedVariable_eq hrefs, bind_ok,
    storedVariable_eq hstarts, bind_ok, List.length_map, checkShape_eq (by rfl), bind_ok,
    checkShape_eq (by rfl), bind_ok, checkShape_eq hstartsLength, bind_ok, Variable.length_integers,
    bind_ok, Variable.toList_integers, length_sorted_refs, ← hoffsetsList]
  cases checkOffsets ((starts.map Int.ofNat).map Number.whole) m.refCount
    (StoreNames.starts ⟨store⟩) with
  | error e => rfl
  | ok _ =>
    rw [bind_ok, Variable.any_isReal_integers,
      if_neg fun h => Bool.false_ne_true h.2, Variable.vector_integers, bind_ok,
      Number.mapM_toInt_whole, bind_ok, Variable.vector_integers, bind_ok, hspans, List.map_map]
    exact hread

end Mesh

end Regrid

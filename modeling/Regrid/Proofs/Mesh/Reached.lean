import Regrid.Mesh.Area
import Regrid.Proofs.Mesh.Calls
import Regrid.Proofs.Mesh.RoundTrip

/-!
# Meshes that were built by calls

In a mesh whose references name vertices, the points and the area of every cell are known
(`exists_corners`, `exists_area`). Writing it fails only if an integer has more than 64 bits
(`toDataset_fresh`, `toDataset_of_not_fits`), and what was written is read, by its name and without
one (`ofDataset_fresh`). Every mesh that was built from an empty one is such a mesh
(`runAll_usable`).
-/

namespace Regrid

namespace Roster

variable {ε : Type} [Numbered ε]

/-- An identifier that is in use is found. -/
theorem exists_get {r : Roster ε} {index : Int} (h : index ∈ r.keys) :
    ∃ x, r.get index = .ok x := by
  obtain ⟨x, hx⟩ := Option.isSome_iff_exists.mp (contains_iff.mpr h)
  exact ⟨x, by rw [get, hx]⟩

end Roster

namespace Mesh

/-! ## Points of a cell -/

section Points

variable {α : Type} {m : Mesh α}

/-- The points of a cell are found if its references are. -/
theorem exists_corners {c : Cell α} (h : ∀ v ∈ c.refs, v ∈ m.vertices.keys) :
    ∃ ps, m.corners c = .ok ps := by
  unfold corners
  generalize c.refs = refs at h
  induction refs with
  | nil => exact ⟨[], rfl⟩
  | cons v refs ih =>
    obtain ⟨hv, hrefs⟩ := List.forall_mem_cons.mp h
    obtain ⟨x, hx⟩ := Roster.exists_get hv
    obtain ⟨ps, hps⟩ := ih hrefs
    exact ⟨(x.x, x.y) :: ps, by rw [List.mapM_cons, hx, bind_ok, bind_ok, hps]; rfl⟩

/-- So its area without a projection is known. -/
theorem exists_area [Trigonometry α] {c : Cell α} (h : ∀ v ∈ c.refs, v ∈ m.vertices.keys)
    (signed : Bool) : ∃ a, m.area c none signed = .ok a := by
  obtain ⟨ps, hps⟩ := exists_corners h
  unfold area
  split
  · exact ⟨0, rfl⟩
  · rw [hps]
    exact ⟨_, rfl⟩

end Points

/-! ## Writing -/

theorem stored64_eq_error {n : Int} (h : Number.inInt64 n ≠ true) :
    stored64 n = .error .tooLarge := by
  unfold stored64 Number.toIdentifier Number.identifier
  simp only
  rw [if_neg h]
  rfl

theorem mapM_stored64_eq_error : ∀ {ns : List Int}, (¬ ∀ n ∈ ns, Number.inInt64 n = true) →
    ns.mapM stored64 = .error .tooLarge
  | [], h => absurd (fun _ hn => absurd hn List.not_mem_nil) h
  | n :: ns, h => by
    rw [List.forall_mem_cons, not_and] at h
    rw [List.mapM_cons]
    by_cases hn : Number.inInt64 n = true
    · rw [stored64_eq hn, bind_ok, mapM_stored64_eq_error (h hn)]
      rfl
    · rw [stored64_eq_error hn]
      rfl

variable {m : Mesh Float} {store : String}

/-- The integers of the entries fit if those of the lists that are stored do. -/
theorem entriesFit_of_lists
    (hcoordinates : ∀ n ∈ m.cells.sorted.flatMap (fun c => [c.i, c.j, c.k]),
      Number.inInt64 n = true)
    (hvertex : ∀ n ∈ m.vertices.sorted.map Vertex.index, Number.inInt64 n = true)
    (hcell : ∀ n ∈ m.cells.sorted.map Cell.index, Number.inInt64 n = true)
    (hrefs : ∀ n ∈ m.cells.sorted.flatMap Cell.refs, Number.inInt64 n = true) :
    m.EntriesFit where
  vertex_index := fun v hv => hvertex _ (List.mem_map_of_mem (Roster.mem_sorted.mpr hv))
  cell_index := fun c hc => hcell _ (List.mem_map_of_mem (Roster.mem_sorted.mpr hc))
  cell_coordinates := fun c hc => by
    have hmem : ∀ n ∈ [c.i, c.j, c.k], Number.inInt64 n = true := fun n hn =>
      hcoordinates n (List.mem_flatMap.mpr ⟨c, Roster.mem_sorted.mpr hc, hn⟩)
    simpa only [List.forall_mem_cons, List.not_mem_nil, false_implies, implies_true, and_true]
      using hmem
  refs := fun c hc v hv => hrefs v (List.mem_flatMap.mpr ⟨c, Roster.mem_sorted.mpr hc, hv⟩)

/-- Entries with an integer of more than 64 bits are not written. -/
theorem contents_eq_error (h : ¬ m.EntriesFit) (t : Ticket) : t.contents m = .error .tooLarge := by
  unfold Ticket.contents Ticket.integerVector
  simp only
  by_cases hijk : ∀ n ∈ m.cells.sorted.flatMap (fun c => [c.i, c.j, c.k]), Number.inInt64 n = true
  swap
  · rw [mapM_stored64_eq_error hijk]
    rfl
  by_cases hvertex : ∀ n ∈ m.vertices.sorted.map Vertex.index, Number.inInt64 n = true
  swap
  · rw [mapM_stored64 hijk, mapM_stored64_eq_error hvertex]
    rfl
  by_cases hcell : ∀ n ∈ m.cells.sorted.map Cell.index, Number.inInt64 n = true
  swap
  · rw [mapM_stored64 hijk, mapM_stored64 hvertex, mapM_stored64_eq_error hcell]
    rfl
  by_cases hrefs : ∀ n ∈ m.cells.sorted.flatMap Cell.refs, Number.inInt64 n = true
  · exact absurd (entriesFit_of_lists hijk hvertex hcell hrefs) h
  · rw [mapM_stored64 hijk, mapM_stored64 hvertex, mapM_stored64 hcell,
      mapM_stored64_eq_error hrefs]
    rfl

theorem storeInfo_cases (m : Mesh Float) :
    m.storeInfo = .error .tooLarge ∨ m.storeInfo = .ok m.settings ∧
      Number.inInt64 m.vertices.full = true ∧ Number.inInt64 m.cells.full = true := by
  by_cases hcells : Number.inInt64 m.cells.full = true
  swap
  · unfold storeInfo
    rw [stored64_eq_error hcells]
    exact Or.inl rfl
  by_cases hvertices : Number.inInt64 m.vertices.full = true
  swap
  · unfold storeInfo
    rw [stored64_eq hcells, stored64_eq_error hvertices]
    exact Or.inl rfl
  exact Or.inr ⟨storeInfo_eq hcells hvertices, hvertices, hcells⟩

/-- **A mesh with an integer of more than 64 bits** is not written. -/
theorem toDataset_of_not_fits (h : ¬ m.Fits) (name : Option String) (ds : Dataset) :
    m.toDataset name ds = .error .tooLarge := by
  unfold toDataset
  rcases m.storeInfo_cases with hinfo | ⟨-, hvertices, hcells⟩
  · unfold Ticket.define
    rw [hinfo]
    rfl
  · have hentries : ¬ m.EntriesFit := fun hentries => h ⟨hentries, hvertices, hcells⟩
    rw [define_eq hcells hvertices rfl, bind_ok, Ticket.write, checkDims_eq, bind_ok,
      contents_eq_error hentries]
    rfl

theorem allVariables_singleton (m : Mesh Float) (store : String) :
    allVariables [(store, m)] = m.storedVariables store := List.flatMap_singleton _ _

theorem keyed_storedVariables (m : Mesh Float) (store : String) :
    Keyed (m.storedVariables store) :=
  m.allVariables_singleton store ▸ keyed_allVariables (List.nodup_singleton store)

/-- The variables of a mesh make a dataset. -/
theorem consistent_storedVariables (m : Mesh Float) (store : String) :
    Dataset.consistent { data := m.storedVariables store } = true :=
  m.allVariables_singleton store ▸ consistent_allVariables (List.nodup_singleton store)

/-- **Writing into a fresh dataset** works as soon as the integers fit. -/
theorem toDataset_fresh (h : m.Fits) {name : Option String}
    (hstore : firstName [name.getD "", m.name] = store) :
    m.toDataset name {} = .ok { data := m.storedVariables store } := by
  have hdata : assignKeys (m.storedVariables store) [] = m.storedVariables store :=
    lastValues_eq_self (keyed_storedVariables m store)
  rw [toDataset_of_fits h hstore]
  simp only [hdata, consistent_storedVariables, if_true]

/-! ## Reading the only mesh -/

theorem endsWith_info (store : String) : (store ++ ".info").endsWith ".info" = true := by
  rw [String.endsWith_eq_endsWith_toSlice, String.Slice.endsWith_string_iff, String.copy_toSlice,
    String.toList_append]
  exact List.suffix_append _ _

theorem dropEnd_info (store : String) : ((store ++ ".info").dropEnd 5).toString = store := by
  rw [← String.toList_inj]
  show ((store ++ ".info").dropEnd 5).copy.toList = _
  rw [String.toList_copy_dropEnd, String.toList_append, List.length_append]
  exact List.take_left' rfl

/-- A dataset with the variables of one mesh is read without its name. -/
theorem onlyMeshName_storedVariables (m : Mesh Float) (store : String) :
    onlyMeshName { data := m.storedVariables store } = .ok store := by
  have hplain : ∀ p ∈ (m.storedVariables store).tail,
      (p.2.attributes.get? cellsFullKey).isSome = false := by
    intro p hp
    unfold storedVariables at hp
    simp only [List.tail_cons, List.mem_cons, List.not_mem_nil, or_false] at hp
    rcases hp with rfl | rfl | rfl | rfl | rfl | rfl | rfl <;> rfl
  have hmarked : ((Variable.single 0 m.settings).attributes.get? cellsFullKey).isSome = true := by
    rw [show (Variable.single 0 m.settings).attributes = m.settings from rfl, get?_cellsFullKey]
    rfl
  have hcons : m.storedVariables store =
      (StoreNames.info ⟨store⟩, Variable.single 0 m.settings) :: (m.storedVariables store).tail :=
    rfl
  have hinfo : ((StoreNames.info ⟨store⟩).endsWith ".info" &&
      ((Variable.single 0 m.settings).attributes.get? cellsFullKey).isSome) = true := by
    rw [hmarked, Bool.and_true]
    exact endsWith_info store
  have hnames : meshNames { data := m.storedVariables store } = [store] := by
    show (m.storedVariables store).filterMap _ = _
    rw [hcons, List.filterMap_cons]
    simp only [hinfo, if_true]
    rw [List.filterMap_eq_nil_iff.mpr fun p hp => ?_]
    · exact congrArg (fun s => [s]) (dropEnd_info store)
    · simp only [hplain p hp, Bool.and_false, Bool.false_eq_true, if_false]
  unfold onlyMeshName
  rw [hnames]

/-- **A dataset with the variables of a mesh** is read. Only more references than 64 bits can count
are refused. -/
theorem ofDataset_cases (hm : m.Sound) (hresolved : m.Resolved) {ds : Dataset}
    (hstored : m.StoredIn store ds) :
    (∃ m', Mesh.ofDataset ds (some store) = .ok m' ∧ m.Returns m') ∨
      2 ^ 63 ≤ m.refCount ∧ ∃ problem expected actual,
        Mesh.ofDataset ds (some store) = .error (.dimensionMismatch problem expected actual) := by
  rw [ofDataset_eq_check hm hresolved hstored]
  by_cases hcount : m.refCount < 2 ^ 63
  · rw [checkOffsets_offsets hcount]
    exact Or.inl ⟨_, rfl, hm.returns_restored⟩
  · unfold checkOffsets
    split
    · exact Or.inl ⟨_, rfl, hm.returns_restored⟩
    · exact Or.inr ⟨not_lt.mp hcount, _, _, _, rfl⟩

/-- The only mesh of a dataset need not be named. -/
theorem ofDataset_none (m : Mesh Float) (store : String) :
    Mesh.ofDataset { data := m.storedVariables store } none =
      Mesh.ofDataset { data := m.storedVariables store } (some store) := by
  unfold Mesh.ofDataset
  rw [Option.elim_none, Option.elim_some, onlyMeshName_storedVariables]

/-- **What was written into a fresh dataset** is read by its name, and without one. -/
theorem ofDataset_fresh (hm : m.Sound) (hresolved : m.Resolved) (store : String)
    {read : Option String} (hread : read = none ∨ read = some store) :
    (∃ m', Mesh.ofDataset { data := m.storedVariables store } read = .ok m' ∧ m.Returns m') ∨
      2 ^ 63 ≤ m.refCount ∧ ∃ problem expected actual,
        Mesh.ofDataset { data := m.storedVariables store } read =
          .error (.dimensionMismatch problem expected actual) := by
  have hstored : m.StoredIn store { data := m.storedVariables store } := fun p hp =>
    valueAt?_of_mem (keyed_storedVariables m store) hp
  rcases hread with rfl | rfl
  · rw [ofDataset_none]
    exact ofDataset_cases hm hresolved hstored
  · exact ofDataset_cases hm hresolved hstored

end Mesh

/-! ## Every mesh that calls lead to -/

namespace MeshCall

open Mesh

variable {m₀ : Mesh Float} {calls : List (MeshCall Float)}

/-- **A mesh that was built from an empty one** without removing vertices one by one has the
vertices of all of its cells, and a vertex or a cell that cannot be added changes nothing. So the
points and the areas of its cells are known, and it is written and read back unless an integer has
more than 64 bits. -/
theorem runAll_usable (hvertices : m₀.vertices = { what := "vertex" })
    (hcells : m₀.cells = { what := "cell" })
    (hcalls : ∀ call ∈ calls, ∀ index, call ≠ removeVertex index) :
    let m := runAll calls m₀
    (∀ c ∈ m.cells.items, ∀ v ∈ c.refs, v ∈ m.vertices.keys) ∧
    (∀ x y index e m', (Mesh.insertVertex x y index).run m = .error e m' → m' = m) ∧
    (∀ refs index i j k nativeArea e m',
      (Mesh.insertCell refs index i j k nativeArea).run m = .error e m' → m' = m) ∧
    (∀ c ∈ m.cells.items, (∃ ps, m.corners c = .ok ps) ∧
      ∀ signed, ∃ a, m.area c none signed = .ok a) ∧
    ∀ name, (¬ m.Fits → m.toDataset name {} = .error .tooLarge) ∧
      (m.Fits → ∃ ds, m.toDataset name {} = .ok ds ∧
        ∀ read, read = none ∨ read = some (firstName [name.getD "", m.name]) →
          (∃ m', Mesh.ofDataset ds read = .ok m' ∧ m.Returns m') ∨
          2 ^ 63 ≤ m.refCount ∧ ∃ problem expected actual,
            Mesh.ofDataset ds read = .error (.dimensionMismatch problem expected actual)) := by
  have hempty : m₀.Sound ∧ m₀.Resolved := by
    refine ⟨⟨?_, ?_⟩, fun c hc => ?_⟩
    · rw [hvertices]
      exact Roster.sound_empty _ _
    · rw [hcells]
      exact Roster.sound_empty _ _
    · rw [hcells] at hc
      exact absurd hc List.not_mem_nil
  intro m
  have hm : m.Sound := runAll_sound hempty.1 calls
  have hresolved : m.Resolved := runAll_resolved hempty.2 hcalls
  refine ⟨hresolved, ?_, ?_, fun c hc => ⟨exists_corners (hresolved c hc),
    exists_area (hresolved c hc)⟩, fun name => ⟨fun h => toDataset_of_not_fits h name {},
    fun h => ⟨_, toDataset_fresh h rfl, fun read hread => ofDataset_fresh hm hresolved _ hread⟩⟩⟩
  · intro x y index e m' hrun
    rcases insertVertex_cases m x y index with ⟨_, hfail⟩ | ⟨_, _, -, hok⟩
    · rw [hfail] at hrun
      cases hrun
      rfl
    · rw [hok] at hrun
      cases hrun
  · intro refs index i j k nativeArea e m' hrun
    rcases insertCell_cases m refs index i j k nativeArea with ⟨_, hfail⟩ | ⟨_, _, -, hok⟩
    · rw [hfail] at hrun
      cases hrun
      rfl
    · rw [hok] at hrun
      cases hrun

/-- Two triangles, a cell that has no vertex 9, and then only the first triangle is kept. -/
def trimmed : List (MeshCall Float) :=
  [.insertVertex 0 0 (.whole (-1)), .insertVertex 1 0 (.whole (-1)),
    .insertVertex 0 1 (.whole (-1)), .insertVertex 1 1 7,
    .insertCell [0, 1, 2] 3 0 0 (-1) 0.5, .insertCell [1, 9] 4 0 0 (-1) 0,
    .insertCell [1, 7, 2] 5 1 0 (-1) 0.5, .retain fun c => .ok (c.index == 3)]

theorem runAll_usable_trimmed :
    let m := runAll trimmed {}
    (∀ call ∈ trimmed, ∀ index, call ≠ removeVertex index) ∧
    m.cells.keys = [3] ∧ m.vertices.keys = [0, 1, 2] ∧ m.cells.full = 6 ∧
    (∀ c ∈ m.cells.items, ∀ v ∈ c.refs, v ∈ m.vertices.keys) ∧
    ∃ ds, m.toDataset none {} = .ok ds ∧ ∃ m', Mesh.ofDataset ds none = .ok m' ∧ m.Returns m' := by
  have hcalls : ∀ call ∈ trimmed, ∀ index, call ≠ removeVertex index := by
    simp [trimmed]
  have husable := @runAll_usable ({} : Mesh Float) trimmed rfl rfl hcalls
  have hfits : (runAll trimmed {}).Fits :=
    ⟨⟨by decide, by decide, by decide, by decide⟩, by decide, by decide⟩
  obtain ⟨hresolved, -, -, -, hwrite⟩ := husable
  obtain ⟨ds, hds, hread⟩ := (hwrite none).2 hfits
  refine ⟨hcalls, by decide, by decide, by decide, hresolved, ds, hds, ?_⟩
  refine (hread none (Or.inl rfl)).resolve_right fun h => absurd h.1 (by decide)

end MeshCall

end Regrid

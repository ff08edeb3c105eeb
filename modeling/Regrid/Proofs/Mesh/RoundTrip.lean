import Regrid.Proofs.Mesh.Restore

/-!
# Stored meshes come back

Meshes that are stored one after the other under different names (`grid_to_dataset`) come back as
they were (`grid_from_dataset`), up to the order of their cells and vertices: `Mesh.ofDataset` gives
`Mesh.restored`, and that has the settings, sizes, cells and vertices of the mesh, by identifier. It
is also stored in the same way (`toDataset_restored`), so that storing it once more changes nothing.
-/

namespace Regrid

namespace Roster

variable {ε : Type} [Numbered ε] {r : Roster ε}

/-- Entities that were added in order are in order. -/
theorem sorted_extend_sorted {r₀ : Roster ε} (hempty : r₀.items = []) (n : Int) :
    ((r₀.extend r.sorted).setFull n).sorted = r.sorted := by
  have hitems : ((r₀.extend r.sorted).setFull n).items = r.sorted := by
    show r₀.items ++ r.sorted = r.sorted
    rw [hempty, List.nil_append]
  rw [sorted_eq_items (by rw [hitems]; exact r.sorted_ascending), hitems]

theorem Sound.extend_sorted (h : r.Sound) {r₀ : Roster ε} (hempty : r₀.items = [])
    (htop : r₀.top = -1) : (r₀.extend r.sorted).Sound := by
  have hitems : (r₀.extend r.sorted).items = r.sorted := by
    show r₀.items ++ r.sorted = r.sorted
    rw [hempty, List.nil_append]
  obtain ⟨hle, hmax⟩ := le_foldl_max r.sorted r₀.top
  refine ⟨?_, ?_, ?_, htop ▸ hle⟩
  · rw [keys, hitems]
    exact keys_sorted_nodup h
  · rw [hitems]
    exact fun x hx => h.nonneg x (mem_sorted.mp hx)
  · rw [hitems]
    exact hmax

end Roster

namespace Mesh

variable {m : Mesh Float} {store : String} {ds : Dataset}

theorem get?_cellsFullKey (m : Mesh Float) :
    m.settings.get? cellsFullKey = some (.int m.cells.full) := by
  unfold settings Attributes.get?
  cases m.storedProjection? <;> simp [valueAt?_cons, cellsFullKey]

theorem get?_verticesFullKey (m : Mesh Float) :
    m.settings.get? verticesFullKey = some (.int m.vertices.full) := by
  unfold settings Attributes.get?
  cases m.storedProjection? <;> simp [valueAt?_cons, cellsFullKey, verticesFullKey]

/-- **A stored mesh** is read, with its cells and vertices in order, if its offsets pass. -/
theorem ofDataset_eq_check (hm : m.Sound) (hresolved : m.Resolved)
    (hstored : m.StoredIn store ds) : Mesh.ofDataset ds (some store) =
      (checkOffsets m.offsets m.refCount (StoreNames.starts ⟨store⟩) >>= fun _ =>
        .ok m.restored) := by
  have hinfo : ds.get? (StoreNames.info ⟨store⟩) = some (Variable.single 0 m.settings) :=
    hstored _ List.mem_cons_self
  have hattributes : (Variable.single 0 m.settings).attributes = m.settings := rfl
  have hvertices := readVertices_eq hm.vertices hstored
    { name := m.name, kind := m.kind, coordinates := m.coordinates,
      parameterization := m.parameterization, projection := m.storedProjection? } rfl
  have hkeys : ∀ v ∈ m.vertices.keys,
      v ∈ (({ what := "vertex" } : Roster (Vertex Float)).extend m.vertices.sorted).keys :=
    fun v hv => ((Roster.sorted_perm m.vertices).map _).mem_iff.mpr hv
  have hcells := readCells_eq hm.cells hresolved hstored
    { name := m.name, kind := m.kind, coordinates := m.coordinates,
      parameterization := m.parameterization, projection := m.storedProjection?,
      vertices := ({ what := "vertex" } : Roster (Vertex Float)).extend m.vertices.sorted }
    rfl hkeys
  unfold Mesh.ofDataset
  rw [Option.elim_some, bind_ok]
  simp only [storedVariable_eq hinfo, bind_ok, hattributes, ofInfo_settings, hvertices, hcells]
  cases checkOffsets m.offsets m.refCount (StoreNames.starts ⟨store⟩) with
  | error e => rfl
  | ok _ =>
    simp only [bind_ok, get?_cellsFullKey, get?_verticesFullKey, Option.getD_some, Datum.toInt_int]
    rfl

/-- A storable mesh is read. -/
theorem ofDataset_eq (h : m.Storable) (hstored : m.StoredIn store ds) :
    Mesh.ofDataset ds (some store) = .ok m.restored := by
  rw [ofDataset_eq_check h.sound h.realized hstored,
    checkOffsets_offsets (lt_of_inInt64 h.ref_count), bind_ok]

/-! ## What comes back -/

theorem sorted_vertices_restored (m : Mesh Float) :
    m.restored.vertices.sorted = m.vertices.sorted := Roster.sorted_extend_sorted rfl _

theorem sorted_cells_restored (m : Mesh Float) : m.restored.cells.sorted = m.cells.sorted :=
  Roster.sorted_extend_sorted rfl _

theorem full_vertices_restored (h : m.Sound) : m.restored.vertices.full = m.vertices.full :=
  Roster.full_setFull h.vertices.full_nonneg

theorem full_cells_restored (h : m.Sound) : m.restored.cells.full = m.cells.full :=
  Roster.full_setFull h.cells.full_nonneg

theorem storedProjection?_restored (m : Mesh Float) :
    m.restored.storedProjection? = m.storedProjection? := by
  cases h : m.storedProjection? with
  | none =>
    unfold storedProjection? restored
    rw [h]
    cases m.coordinates <;> rfl
  | some s =>
    obtain ⟨hplane, hs⟩ := storedProjection_ne h
    unfold storedProjection? restored
    simp only [h, hplane]
    exact if_neg hs

/-- The mesh that comes back can be stored. -/
theorem storable_restored (h : m.Storable) : m.restored.Storable := by
  have hvertices : ∀ {v}, v ∈ m.restored.vertices.items → v ∈ m.vertices.items :=
    Roster.mem_sorted.mp
  have hcells : ∀ {c}, c ∈ m.restored.cells.items → c ∈ m.cells.items := Roster.mem_sorted.mp
  have hcount : m.restored.refCount = m.refCount := length_sorted_refs m
  exact {
    vertices := (h.vertices.extend_sorted rfl rfl).setFull _
    cells := (h.cells.extend_sorted rfl rfl).setFull _
    realized := fun c hc v hv =>
      ((Roster.sorted_perm m.vertices).map _).mem_iff.mpr (h.realized c (hcells hc) v hv)
    vertex_index := fun v hv => h.vertex_index v (hvertices hv)
    cell_index := fun c hc => h.cell_index c (hcells hc)
    cell_coordinates := fun c hc => h.cell_coordinates c (hcells hc)
    vertices_full := by rw [full_vertices_restored h.sound]; exact h.vertices_full
    cells_full := by rw [full_cells_restored h.sound]; exact h.cells_full
    ref_count := by rw [hcount]; exact h.ref_count }

theorem settings_restored (h : m.Storable) : m.restored.settings = m.settings := by
  unfold settings
  rw [storedProjection?_restored, full_vertices_restored h.sound, full_cells_restored h.sound]
  rfl

theorem storedVariables_restored (h : m.Storable) (store : String) :
    m.restored.storedVariables store = m.storedVariables store := by
  unfold storedVariables
  rw [settings_restored h, sorted_vertices_restored, sorted_cells_restored]

/-- It is stored like the mesh. -/
theorem toDataset_restored (h : m.Storable) (hstore : store ≠ "") (ds : Dataset) :
    m.restored.toDataset (some store) ds = m.toDataset (some store) ds := by
  rw [toDataset_eq (storable_restored h) hstore, toDataset_eq h hstore,
    storedVariables_restored h]

/-! ## Many meshes -/

/-- What of a mesh comes back: its settings, the sizes of its numberings, and its vertices and cells
by identifier. A projection is kept only for a plane, and only if it is not empty. -/
structure Returns (m m' : Mesh Float) : Prop where
  name : m'.name = m.name
  kind : m'.kind = m.kind
  coordinates : m'.coordinates = m.coordinates
  parameterization : m'.parameterization = m.parameterization
  projection : m'.projection =
    if m.coordinates = .plane then m.projection.filter fun s => s ≠ "" else none
  vertices_full : m'.vertices.full = m.vertices.full
  cells_full : m'.cells.full = m.cells.full
  vertices : m'.vertices.sorted = m.vertices.sorted
  cells : m'.cells.sorted = m.cells.sorted

theorem storedProjection?_eq {α : Type} (m : Mesh α) : m.storedProjection? =
    if m.coordinates = .plane then m.projection.filter fun s => s ≠ "" else none := by
  unfold storedProjection?
  cases m.coordinates with
  | lonLat => rfl
  | plane =>
    cases m.projection with
    | none => rfl
    | some s => by_cases hs : s = "" <;> simp [hs, Option.filter_some]

theorem Sound.returns_restored (h : m.Sound) : m.Returns m.restored where
  name := rfl
  kind := rfl
  coordinates := rfl
  parameterization := rfl
  projection := storedProjection?_eq m
  vertices_full := full_vertices_restored h
  cells_full := full_cells_restored h
  vertices := sorted_vertices_restored m
  cells := sorted_cells_restored m

theorem returns_restored (h : m.Storable) : m.Returns m.restored := h.sound.returns_restored

/-- **Meshes that are stored under different names** come back, each under its name, and storing
what came back is storing the mesh: into the same dataset it changes nothing. -/
theorem ofDataset_toDataset {grids : List (String × Mesh Float)}
    (hnames : (grids.map Prod.fst).Nodup) (hnonempty : ∀ g ∈ grids, g.1 ≠ "")
    (h : ∀ g ∈ grids, g.2.Storable) :
    ∃ ds, grids.foldlM (fun ds g => g.2.toDataset (some g.1) ds) {} = .ok ds ∧
      ∀ g ∈ grids, ∃ m', Mesh.ofDataset ds (some g.1) = .ok m' ∧ g.2.Returns m' ∧
        (∀ ds', m'.toDataset (some g.1) ds' = g.2.toDataset (some g.1) ds') ∧
        m'.toDataset (some g.1) ds = .ok ds := by
  refine ⟨_, foldlM_toDataset hnames hnonempty h, fun g hg => ?_⟩
  have hkeyed := keyed_allVariables hnames
  have hmem : ∀ p ∈ g.2.storedVariables g.1, p ∈ allVariables grids := fun p hp =>
    List.mem_flatMap.mpr ⟨g, hg, hp⟩
  have hstored : g.2.StoredIn g.1 { data := allVariables grids } := fun p hp =>
    valueAt?_of_mem hkeyed (hmem p hp)
  refine ⟨_, ofDataset_eq (h g hg) hstored, returns_restored (h g hg),
    toDataset_restored (h g hg) (hnonempty g hg), ?_⟩
  rw [toDataset_restored (h g hg) (hnonempty g hg), toDataset_eq (h g hg) (hnonempty g hg),
    assignKeys_eq_self hkeyed hmem, if_pos (consistent_allVariables hnames)]

/-- A triangle in a plane, in a numbering with gaps, and a mesh on the sphere that has a cell
without vertices. The name of the second begins like variables of the first. -/
theorem ofDataset_toDataset_two :
    let triangle : Mesh Float :=
      { name := "triangle", projection := some "+proj=stere",
        vertices := { what := "vertex", items := [⟨0, 1, 7⟩, ⟨0, 0, 2⟩, ⟨1, 0, 5⟩], top := 7 },
        cells := { what := "cell", items := [⟨[2, 5, 7], 3, 1, 0, -1, 0.5⟩], top := 3 } }
    let empty : Mesh Float :=
      { kind := .lonLat, coordinates := .lonLat, parameterization := .perVertex,
        cells := { what := "cell", items := [⟨[], 0, -1, -1, -1, 0⟩], fixed := 10, top := 0 } }
    let grids := [("a", triangle), ("a.cells", empty)]
    (∀ g ∈ grids, g.2.Storable) ∧
      ∃ ds, grids.foldlM (fun ds g => g.2.toDataset (some g.1) ds) {} = .ok ds ∧
        ∀ g ∈ grids, ∃ m', Mesh.ofDataset ds (some g.1) = .ok m' ∧ g.2.Returns m' ∧
          (∀ ds', m'.toDataset (some g.1) ds' = g.2.toDataset (some g.1) ds') ∧
          m'.toDataset (some g.1) ds = .ok ds := by
  intro triangle empty grids
  have htriangle : triangle.Storable := {
    vertices := ⟨by decide, by decide, by decide, by decide⟩
    cells := ⟨by decide, by decide, by decide, by decide⟩
    realized := by decide
    vertex_index := by decide
    cell_index := by decide
    cell_coordinates := by decide
    vertices_full := by decide
    cells_full := by decide
    ref_count := by decide }
  have hempty : empty.Storable := {
    vertices := Roster.sound_empty _ _
    cells := ⟨by decide, by decide, by decide, by decide⟩
    realized := by decide
    vertex_index := by decide
    cell_index := by decide
    cell_coordinates := by decide
    vertices_full := by decide
    cells_full := by decide
    ref_count := by decide }
  have hstorable : ∀ g ∈ grids, g.2.Storable := by
    intro g hg
    simp only [grids, List.mem_cons, List.not_mem_nil, or_false] at hg
    rcases hg with rfl | rfl
    · exact htriangle
    · exact hempty
  exact ⟨hstorable, ofDataset_toDataset (by decide) (by decide) hstorable⟩

end Mesh

end Regrid

import Regrid.Proofs.Mesh.Reached

/-!
# Meshes that change between declaring and writing

A ticket (`GridWriteTicket`) holds the settings and sizes that a mesh had when it was declared, and
the vertices and cells are taken when it is written. In between only their numbers are compared:
another number of vertices, cells or references is refused (`checkDims_cases`), and as long as the
numbers agree the store is that of `Mesh.declaredAs`, the vertices and cells of the one mesh with
the settings and sizes of the other. So a mesh that was renamed in between comes back with its old
name (`write_after_define_stale`).
-/

namespace Regrid

namespace Mesh

section Counts

variable {α : Type} {m₀ m : Mesh α}

/-- As many vertices, cells and references. -/
structure SameCounts (m₀ m : Mesh α) : Prop where
  vertices : m.vertices.size = m₀.vertices.size
  cells : m.cells.size = m₀.cells.size
  refs : m.refCount = m₀.refCount

instance (m₀ m : Mesh α) : Decidable (m₀.SameCounts m) :=
  decidable_of_iff (m.vertices.size = m₀.vertices.size ∧ m.cells.size = m₀.cells.size ∧
    m.refCount = m₀.refCount) ⟨fun h => ⟨h.1, h.2.1, h.2.2⟩, fun h => ⟨h.vertices, h.cells, h.refs⟩⟩

theorem SameCounts.storeDims (h : m₀.SameCounts m) (n : StoreNames) :
    m.storeDims n = m₀.storeDims n := by
  unfold Mesh.storeDims
  rw [h.vertices, h.cells, h.refs]

/-- Every mesh has the same dimensions. -/
theorem exists_storeDims {n : StoreNames} (m₀ : Mesh α) {p : String × Nat}
    (hp : p ∈ m.storeDims n) : ∃ size, (p.1, size) ∈ m₀.storeDims n := by
  have hnames : (m.storeDims n).map Prod.fst = (m₀.storeDims n).map Prod.fst := rfl
  have hp' : p.1 ∈ (m₀.storeDims n).map Prod.fst := hnames ▸ List.mem_map_of_mem hp
  obtain ⟨⟨dim, size⟩, hq, hdim⟩ := List.mem_map.mp hp'
  obtain rfl : dim = p.1 := hdim
  exact ⟨size, hq⟩

end Counts

variable {m₀ m m' : Mesh Float}

/-- The mesh with the settings and sizes of another one. -/
def declaredAs (m₀ m : Mesh Float) : Mesh Float :=
  { m₀ with
    vertices := m.vertices.setFull m₀.vertices.full
    cells := m.cells.setFull m₀.cells.full }

theorem settings_declaredAs (h : m₀.Sound) (m : Mesh Float) :
    (m₀.declaredAs m).settings = m₀.settings := by
  have hvertices : (m₀.declaredAs m).vertices.full = m₀.vertices.full :=
    Roster.full_setFull h.vertices.full_nonneg
  have hcells : (m₀.declaredAs m).cells.full = m₀.cells.full :=
    Roster.full_setFull h.cells.full_nonneg
  have hprojection : (m₀.declaredAs m).storedProjection? = m₀.storedProjection? := rfl
  unfold settings
  rw [hvertices, hcells, hprojection]
  rfl

/-- What comes back of a mesh that was declared as `m₀` and written as `m`: the settings and the
sizes of the numberings as declared, and the vertices and cells as written. -/
structure ReturnsAs (m₀ m m' : Mesh Float) : Prop where
  name : m'.name = m₀.name
  kind : m'.kind = m₀.kind
  coordinates : m'.coordinates = m₀.coordinates
  parameterization : m'.parameterization = m₀.parameterization
  projection : m'.projection =
    if m₀.coordinates = .plane then m₀.projection.filter fun s => s ≠ "" else none
  vertices_full : m'.vertices.full = m₀.vertices.full
  cells_full : m'.cells.full = m₀.cells.full
  vertices : m'.vertices.sorted = m.vertices.sorted
  cells : m'.cells.sorted = m.cells.sorted

theorem Returns.returnsAs (h : m₀.Sound) (hreturns : (m₀.declaredAs m).Returns m') :
    m₀.ReturnsAs m m' where
  name := hreturns.name
  kind := hreturns.kind
  coordinates := hreturns.coordinates
  parameterization := hreturns.parameterization
  projection := hreturns.projection
  vertices_full := hreturns.vertices_full.trans (Roster.full_setFull h.vertices.full_nonneg)
  cells_full := hreturns.cells_full.trans (Roster.full_setFull h.cells.full_nonneg)
  vertices := hreturns.vertices
  cells := hreturns.cells

end Mesh

namespace Ticket

open Mesh

variable {m₀ m : Mesh Float} {name : Option String} {t : Ticket}

/-- **What a ticket holds** of the mesh that was declared, whose sizes fit. -/
theorem of_define (h : define m₀ name = .ok t) :
    t = ⟨firstName [name.getD "", m₀.name], m₀.settings, m₀.extents t.store⟩ ∧
      Number.inInt64 m₀.vertices.full = true ∧ Number.inInt64 m₀.cells.full = true := by
  unfold define at h
  rcases m₀.storeInfo_cases with hinfo | ⟨hinfo, hfull⟩
  · rw [hinfo] at h
    cases h
  · rw [hinfo] at h
    cases h
    exact ⟨rfl, hfull⟩

/-- What is checked of one extent. -/
def checkExtent (t : Ticket) (m : Mesh Float) (p : String × Nat) : Except Error Unit :=
  if (valueAt? p.1 t.dims).getD 0 = p.2 then .ok ()
  else .error (.dimensionMismatch
    ("Grid " ++ Text.quoted m.name ++ " changed after define: " ++ p.1)
    (.int ((valueAt? p.1 t.dims).getD 0)) (.int p.2))

theorem checkDims_eq_forM (t : Ticket) (m : Mesh Float) :
    t.checkDims m = (m.storeDims ⟨t.store⟩).forM (t.checkExtent m) := rfl

/-- An extent is compared with the one that was declared. -/
theorem checkExtent_eq (hdims : t.dims = m₀.extents t.store) {dim : String} {declared : Nat}
    (hmem : (dim, declared) ∈ m₀.storeDims ⟨t.store⟩) (m : Mesh Float) (actual : Nat) :
    t.checkExtent m (dim, actual) = if declared = actual then .ok ()
      else .error (.dimensionMismatch
        ("Grid " ++ Text.quoted m.name ++ " changed after define: " ++ dim)
        (.int declared) (.int actual)) := by
  have hdeclared : valueAt? dim t.dims = some declared := by
    rw [hdims]
    exact valueAt?_of_mem (m₀.keyed_extents t.store) (List.mem_append_left _ hmem)
  unfold checkExtent
  rw [hdeclared, Option.getD_some]

/-- **Another number** of vertices, cells or references than declared is refused, and nothing
else. -/
theorem checkDims_cases (hdims : t.dims = m₀.extents t.store) (m : Mesh Float) :
    m₀.SameCounts m ∧ t.checkDims m = .ok () ∨
      ¬ m₀.SameCounts m ∧ ∃ dim declared actual, (dim, declared) ∈ m₀.storeDims ⟨t.store⟩ ∧
        (dim, actual) ∈ m.storeDims ⟨t.store⟩ ∧ declared ≠ actual ∧
        t.checkDims m = .error (.dimensionMismatch
          ("Grid " ++ Text.quoted m.name ++ " changed after define: " ++ dim)
          (.int declared) (.int actual)) := by
  rw [checkDims_eq_forM]
  rcases forM_cases (t.checkExtent m) (m.storeDims ⟨t.store⟩) with
    ⟨hpass, hall⟩ | ⟨p, hp, e, he, hfail⟩
  · have hequal : ∀ {declared actual : Nat} (dim : String),
        (dim, declared) ∈ m₀.storeDims ⟨t.store⟩ → (dim, actual) ∈ m.storeDims ⟨t.store⟩ →
        actual = declared := by
      intro declared actual dim hmem₀ hmem
      have hcheck := hall _ hmem
      rw [checkExtent_eq hdims hmem₀] at hcheck
      by_contra hne
      rw [if_neg fun heq => hne heq.symm] at hcheck
      cases hcheck
    refine Or.inl ⟨⟨?_, ?_, ?_⟩, hpass⟩
    · exact hequal (StoreNames.vertexDim ⟨t.store⟩) (by simp [storeDims]) (by simp [storeDims])
    · exact hequal (StoreNames.cellDim ⟨t.store⟩) (by simp [storeDims]) (by simp [storeDims])
    · exact hequal (StoreNames.refDim ⟨t.store⟩) (by simp [storeDims]) (by simp [storeDims])
  · obtain ⟨declared, hmem⟩ := exists_storeDims m₀ hp
    rw [checkExtent_eq hdims hmem] at he
    split at he
    · cases he
    · rename_i hne
      cases he
      refine Or.inr ⟨fun hsame => hne ?_, p.1, declared, p.2, hmem, hp, hne, hfail⟩
      rw [hsame.storeDims] at hp
      exact (m₀.keyed_storeDims t.store).value_unique hmem hp

/-! ## Writing what was declared -/

/-- **The variables that are written** are those of the entries as they are, under the settings as
they were. -/
theorem contents_of_define (h : m₀.Sound) (hdefine : define m₀ name = .ok t)
    (hfit : m.EntriesFit) : t.contents m = .ok ((m₀.declaredAs m).storedVariables t.store) := by
  obtain ⟨ht, -, -⟩ := of_define hdefine
  have hsettings : (m₀.declaredAs m).settings = m₀.settings := settings_declaredAs h m
  have hentries : (m₀.declaredAs m).EntriesFit :=
    ⟨hfit.vertex_index, hfit.cell_index, hfit.cell_coordinates, hfit.refs⟩
  have hsame : t.contents m = t.contents (m₀.declaredAs m) := rfl
  rw [hsame, ht, ← hsettings]
  exact contents_eq hentries _ _

/-- A dataset without coordinates has the variables that were written into it. -/
theorem storedIn_of_write {m' : Mesh Float}
    (hvars : t.contents m = .ok (m'.storedVariables t.store)) {ds ds' : Dataset}
    (hds : ds.coordinates = []) (hwrite : t.write m ds = .ok ds') : m'.StoredIn t.store ds' := by
  intro p hp
  have hkeyed := m'.keyed_storedVariables t.store
  unfold write at hwrite
  obtain ⟨u, hdims, hwrite⟩ := bind_eq_ok.mp hwrite
  rw [hvars, bind_ok] at hwrite
  have hds' : ds' = { ds with data := assignKeys (m'.storedVariables t.store) ds.data } := by
    dsimp only at hwrite
    split at hwrite
    · cases hwrite
      rfl
    · cases hwrite
  subst hds'
  unfold Dataset.get? Dataset.all
  rw [hds, List.nil_append]
  exact valueAt?_assignKeys (fun v hv => hkeyed.value_unique hv hp) (Or.inl hp)

/-- A mesh that has the declared numbers is written into a fresh dataset. -/
theorem write_fresh (h : m₀.Sound) (hdefine : define m₀ name = .ok t) (hcounts : m₀.SameCounts m)
    (hfit : m.EntriesFit) :
    t.write m {} = .ok { data := (m₀.declaredAs m).storedVariables t.store } := by
  have hdims : t.dims = m₀.extents t.store := congrArg Ticket.dims (of_define hdefine).1
  obtain ⟨-, hpass⟩ := (checkDims_cases hdims m).resolve_right fun hfail => hfail.1 hcounts
  have hdata : assignKeys ((m₀.declaredAs m).storedVariables t.store) [] =
      (m₀.declaredAs m).storedVariables t.store := lastValues_eq_self (keyed_storedVariables _ _)
  rw [write_eq hpass (contents_of_define h hdefine hfit)]
  simp only [hdata, consistent_storedVariables, if_true]

/-- What was written is read. -/
theorem exists_returnsAs (h : m₀.Sound) (hm : m.Sound) (hresolved : m.Resolved)
    (hcount : m.refCount < 2 ^ 63) {store : String} {ds : Dataset}
    (hstored : (m₀.declaredAs m).StoredIn store ds) :
    ∃ m', Mesh.ofDataset ds (some store) = .ok m' ∧ m₀.ReturnsAs m m' := by
  have hsound : (m₀.declaredAs m).Sound := ⟨hm.vertices.setFull _, hm.cells.setFull _⟩
  rcases ofDataset_cases hsound hresolved hstored with ⟨m', hm', hreturns⟩ | ⟨hlarge, -⟩
  · exact ⟨m', hm', hreturns.returnsAs h⟩
  · exact absurd hcount (not_lt.mpr hlarge)

/-- **What becomes of a mesh that changes after it was declared.** If it has another number of
vertices, cells or references, it is refused. If not, its vertices and cells are stored, and come
back with the settings and sizes that were declared. -/
theorem write_after_define (h : m₀.Sound) (hdefine : define m₀ name = .ok t)
    (calls : List (MeshCall Float)) :
    let m := MeshCall.runAll calls m₀
    (¬ m₀.SameCounts m → ∀ ds, ∃ dim declared actual,
      (dim, declared) ∈ m₀.storeDims ⟨t.store⟩ ∧ (dim, actual) ∈ m.storeDims ⟨t.store⟩ ∧
      declared ≠ actual ∧ t.write m ds = .error (.dimensionMismatch
        ("Grid " ++ Text.quoted m.name ++ " changed after define: " ++ dim)
        (.int declared) (.int actual))) ∧
    (m₀.SameCounts m → ¬ m.EntriesFit → ∀ ds, t.write m ds = .error .tooLarge) ∧
    (m₀.SameCounts m → m.EntriesFit → m.Resolved → m.refCount < 2 ^ 63 →
      (∃ ds, t.write m {} = .ok ds ∧
        ∃ m', Mesh.ofDataset ds none = .ok m' ∧ m₀.ReturnsAs m m') ∧
      ∀ ds ds', ds.coordinates = [] → t.write m ds = .ok ds' →
        ∃ m', Mesh.ofDataset ds' (some t.store) = .ok m' ∧ m₀.ReturnsAs m m') := by
  intro m
  have hdims : t.dims = m₀.extents t.store := congrArg Ticket.dims (of_define hdefine).1
  have hm : m.Sound := MeshCall.runAll_sound h calls
  have hcheck := checkDims_cases hdims m
  refine ⟨fun hcounts ds => ?_, fun hcounts hfit ds => ?_, fun hcounts hfit hresolved hcount => ?_⟩
  · obtain ⟨-, dim, declared, actual, hdeclared, hactual, hne, herror⟩ :=
      hcheck.resolve_left fun hpass => hcounts hpass.1
    refine ⟨dim, declared, actual, hdeclared, hactual, hne, ?_⟩
    unfold write
    rw [herror]
    rfl
  · obtain ⟨-, hpass⟩ := hcheck.resolve_right fun hfail => hfail.1 hcounts
    unfold write
    rw [hpass, bind_ok, contents_eq_error hfit]
    rfl
  · have hvars := contents_of_define h hdefine hfit
    have hfresh := write_fresh h hdefine hcounts hfit
    have hread : ∀ ds, (m₀.declaredAs m).StoredIn t.store ds →
        ∃ m', Mesh.ofDataset ds (some t.store) = .ok m' ∧ m₀.ReturnsAs m m' := fun ds =>
      exists_returnsAs h hm hresolved hcount
    refine ⟨⟨_, hfresh, ?_⟩, fun ds ds' hds hwrite =>
      hread ds' (storedIn_of_write hvars hds hwrite)⟩
    rw [ofDataset_none]
    exact hread _ (storedIn_of_write hvars rfl hfresh)

/-- A triangle. -/
def triangle : Mesh Float :=
  { name := "triangle",
    vertices := { what := "vertex", items := [⟨0, 0, 0⟩, ⟨1, 0, 1⟩, ⟨0, 1, 2⟩], top := 2 },
    cells := { what := "cell", items := [⟨[0, 1, 2], 0, 0, 0, 0, 0.5⟩], top := 0 } }

theorem sound_triangle : triangle.Sound :=
  ⟨⟨by decide, by decide, by decide, by decide⟩, ⟨by decide, by decide, by decide, by decide⟩⟩

/-- A cell is exchanged for another one, which comes back; a further vertex is refused. -/
theorem write_after_define_triangle :
    triangle.Sound ∧ ∃ t, define triangle (some "g") = .ok t ∧
      (let m := MeshCall.runAll [.removeCell 0, .insertCell [2, 1, 0] 4 0 0 0 0.5] triangle
       m.cells.keys = [4] ∧ ∃ ds, t.write m {} = .ok ds ∧
        ∃ m', Mesh.ofDataset ds none = .ok m' ∧ triangle.ReturnsAs m m') ∧
      let m := MeshCall.runAll [.insertVertex 1 1 7] triangle
      ∃ (dim : String) (declared actual : Nat), declared ≠ actual ∧
        t.write m {} = .error (.dimensionMismatch
          ("Grid " ++ Text.quoted m.name ++ " changed after define: " ++ dim)
          (.int declared) (.int actual)) := by
  have hdefine : define triangle (some "g") =
      .ok ⟨"g", triangle.settings, triangle.extents "g"⟩ := define_eq (by decide) (by decide) rfl
  refine ⟨sound_triangle, _, hdefine, ⟨by decide, ?_⟩, ?_⟩
  · have hwrite := write_after_define sound_triangle hdefine
      [.removeCell 0, .insertCell [2, 1, 0] 4 0 0 0 0.5]
    exact (hwrite.2.2 (by decide) ⟨by decide, by decide, by decide, by decide⟩
      (by unfold Resolved; decide) (by decide)).1
  · have hwrite := write_after_define sound_triangle hdefine [.insertVertex 1 1 7]
    obtain ⟨dim, declared, actual, -, -, hne, herror⟩ := hwrite.1 (by decide) {}
    exact ⟨dim, declared, actual, hne, herror⟩

/-- **A mesh that was renamed** and got another size after it was declared is written, and comes
back under its old name and in its old size. -/
theorem write_after_define_stale :
    let m := MeshCall.runAll [.assign (.name "renamed"), .fixCells 10] triangle
    triangle.Sound ∧ m.Resolved ∧ m.EntriesFit ∧
      ∃ t ds m', define triangle none = .ok t ∧ t.write m {} = .ok ds ∧
        Mesh.ofDataset ds none = .ok m' ∧ m'.name ≠ m.name ∧ m'.cells.full ≠ m.cells.full ∧
        ¬ m.Returns m' := by
  intro m
  have hdefine : define triangle none =
      .ok ⟨"triangle", triangle.settings, triangle.extents "triangle"⟩ :=
    define_eq (by decide) (by decide) rfl
  have hresolved : m.Resolved := by
    unfold Resolved
    decide
  have hfit : m.EntriesFit := ⟨by decide, by decide, by decide, by decide⟩
  have hcounts : triangle.SameCounts m := by decide
  have hfresh := write_fresh sound_triangle hdefine hcounts hfit
  obtain ⟨m', hread, hreturns⟩ := exists_returnsAs sound_triangle
    (MeshCall.runAll_sound sound_triangle _) hresolved (by decide)
    (storedIn_of_write (contents_of_define sound_triangle hdefine hfit) rfl hfresh)
  have hname : m'.name ≠ m.name := by
    rw [hreturns.name]
    decide
  have hfull : m'.cells.full ≠ m.cells.full := by
    rw [hreturns.cells_full]
    decide
  refine ⟨sound_triangle, hresolved, hfit, _, _, m', hdefine, hfresh, ?_, hname, hfull,
    fun h => hname h.name⟩
  rw [ofDataset_none]
  exact hread

end Ticket

end Regrid

import Regrid.Mesh.Structured
import Regrid.Proofs.Mesh.History
import Regrid.Proofs.Mesh.Restore
import Regrid.Proofs.Range

/-!
# Meshes that can be reached

A mesh is made new, from the edges of its rows and columns, from a grid of the globe, or from a
dataset, and is changed by calls on itself or on one of its rosters. In every mesh that can be
reached in these ways the identifiers are sound (`Mesh.Reachable.sound`).
-/

namespace Regrid

/-! ## Consecutive numbers -/

/-- The places of a list. -/
theorem map_zipIdx_snd {β γ : Type} (xs : List β) (f : Nat → γ) :
    (xs.zipIdx.map fun t => f t.2) = (List.range xs.length).map f := by
  rw [List.range_eq_range', ← List.zipIdx_map_snd, List.map_map]
  rfl

/-- Entities that are numbered from zero on are sound. -/
theorem Roster.sound_of_keys {ε : Type} [Numbered ε] {r : Roster ε} {n : Nat}
    (hkeys : r.keys = (List.range n).map Nat.cast) (htop : r.top = r.items.length - 1) :
    r.Sound := by
  have hlength : r.items.length = n := by
    simpa [Roster.keys] using congrArg List.length hkeys
  rw [hlength] at htop
  have hindex : ∀ x ∈ r.items, ∃ i < n, Numbered.index x = (i : Int) := fun x hx => by
    have hkey : Numbered.index x ∈ r.keys := List.mem_map_of_mem hx
    rw [hkeys] at hkey
    obtain ⟨i, hi, he⟩ := List.mem_map.mp hkey
    exact ⟨i, List.mem_range.mp hi, he.symm⟩
  refine ⟨?_, fun x hx => ?_, fun x hx => ?_, ?_⟩
  · rw [hkeys]
    exact List.nodup_range.map Nat.cast_injective
  · obtain ⟨i, -, he⟩ := hindex x hx
    exact he ▸ Int.natCast_nonneg i
  · obtain ⟨i, hi, he⟩ := hindex x hx
    rw [he, htop]
    omega
  · rw [htop]
    omega

namespace Mesh

variable {α : Type}

/-! ## Products of edges -/

theorem keys_productVertices (xs ys : List α) : (productVertices xs ys).map Vertex.index =
    (List.range (ys.length * xs.length)).map Nat.cast := by
  have hrow : ∀ (y : α) (j : Nat), (xs.zipIdx.map fun t : α × Nat =>
      (⟨t.1, y, j * xs.length + t.2⟩ : Vertex α)).map Vertex.index =
        (List.range xs.length).map fun i => ((j * xs.length + i : Nat) : Int) := fun y j => by
    rw [List.map_map, ← map_zipIdx_snd]
    rfl
  rw [← flatMap_range_table, List.map_flatMap, productVertices, List.map_flatMap, List.flatMap_def,
    List.flatMap_def, ← map_zipIdx_snd ys]
  exact congrArg List.flatten (List.map_congr_left fun t _ =>
    (hrow t.1 t.2).trans (List.map_map ..).symm)

theorem keys_productCells (columns rows : Nat) (area : Nat → Nat → α) :
    (productCells columns rows area).map Cell.index =
      (List.range (rows * columns)).map Nat.cast := by
  rw [← flatMap_range_table, List.map_flatMap, productCells, List.map_flatMap]
  simp only [List.map_map]
  rfl

/-- Rows and columns are numbered from zero on. -/
theorem sound_product (settings : Mesh α) (xs ys : List α) (area : Nat → Nat → α) :
    (product settings xs ys area).Sound := by
  exact ⟨Roster.sound_of_keys (keys_productVertices xs ys) rfl,
    Roster.sound_of_keys (keys_productCells (xs.length - 1) (ys.length - 1) area) rfl⟩

/-! ## Stored meshes -/

section Stored

variable {m m' : Mesh Float} {ds : Dataset}

/-- A property of meshes that adding a vertex or a cell keeps. -/
structure KeptByAdding (P : Mesh Float → Prop) : Prop where
  vertex : ∀ {m m' : Mesh Float} {v w : Vertex Float}, P m → m.addVertex v = .ok (m', w) → P m'
  cell : ∀ {m m' : Mesh Float} {c d : Cell Float}, P m → m.addCell c = .ok (m', d) → P m'

section Reading

variable {P : Mesh Float → Prop} (hP : KeptByAdding P) (h : P m)
include hP h

theorem KeptByAdding.addStoredVertex {index : Number} {x y : Float}
    (hadd : m.addStoredVertex index x y = .ok m') : P m' := by
  unfold Mesh.addStoredVertex at hadd
  simp only [bind_eq_ok] at hadd
  obtain ⟨i, -, p, hp, hm'⟩ := hadd
  cases hm'
  exact hP.vertex h hp

theorem KeptByAdding.addStoredCell {refs : List Number} {index i j k : Number} {area : Float}
    (hadd : m.addStoredCell refs index i j k area = .ok m') : P m' := by
  unfold Mesh.addStoredCell at hadd
  simp only [bind_eq_ok] at hadd
  obtain ⟨_, -, _, -, _, -, _, -, hadd⟩ := hadd
  split at hadd
  · cases hadd
  · simp only [bind_eq_ok] at hadd
    obtain ⟨ids, -, p, hp, hm'⟩ := hadd
    cases hm'
    exact hP.cell h hp

theorem KeptByAdding.readVertices {n : StoreNames} (hread : m.readVertices ds n = .ok m') :
    P m' := by
  unfold Mesh.readVertices at hread
  simp only [bind_eq_ok] at hread
  obtain ⟨_, -, _, -, _, -, _, -, _, -, hread⟩ := hread
  exact foldlM_invariant (fun m _ m' h hstep => hP.addStoredVertex h hstep) h hread

theorem KeptByAdding.readCells {n : StoreNames} (hread : m.readCells ds n = .ok m') : P m' := by
  unfold Mesh.readCells at hread
  simp only [bind_eq_ok] at hread
  obtain ⟨_, -, _, -, _, -, _, -, _, -, _, -, _, -, _, -, _, -, _, -, _, -, hread⟩ := hread
  split at hread
  · obtain ⟨_, hthrow, -⟩ := bind_eq_ok.mp hread
    cases hthrow
  simp only [bind_eq_ok] at hread
  obtain ⟨_, -, _, -, _, -, hread⟩ := hread
  exact foldlM_invariant (fun m _ m' h hstep => hP.addStoredCell h hstep) h hread

end Reading

/-- **A mesh that was read** has a property that new meshes have and that adding keeps, but for the
sizes that are fixed in the end. -/
theorem KeptByAdding.ofDataset {P : Mesh Float → Prop} (hP : KeptByAdding P)
    (hnew : ∀ m : Mesh Float,
      m.vertices = { what := "vertex" } → m.cells = { what := "cell" } → P m)
    {name : Option String} (h : Mesh.ofDataset ds name = .ok m) : ∃ m' : Mesh Float, P m' ∧
      ∃ a b, m = { m' with cells := m'.cells.setFull b, vertices := m'.vertices.setFull a } := by
  unfold Mesh.ofDataset at h
  simp only [bind_eq_ok] at h
  obtain ⟨store, -, v, -, m₁, hinfo, m₂, hvertices, m₃, hcells, cells, -, vertices, -, hm⟩ := h
  cases hm
  obtain ⟨hnewVertices, hnewCells⟩ := rosters_of_ofInfo hinfo
  have hread := hP.readVertices (hnew m₁ hnewVertices hnewCells) hvertices
  exact ⟨m₃, hP.readCells hread hcells, vertices, cells, rfl⟩

theorem keptByAdding_sound : KeptByAdding Sound where
  vertex h hadd := by
    unfold Mesh.addVertex at hadd
    obtain ⟨p, hp, hm'⟩ := bind_eq_ok.mp hadd
    cases hm'
    exact ⟨h.vertices.add hp, h.cells⟩
  cell h hadd := by
    unfold Mesh.addCell at hadd
    obtain ⟨_, -, hadd⟩ := bind_eq_ok.mp hadd
    obtain ⟨p, hp, hm'⟩ := bind_eq_ok.mp hadd
    cases hm'
    exact ⟨h.vertices, h.cells.add hp⟩

theorem sound_of_new (hvertices : m.vertices = { what := "vertex" })
    (hcells : m.cells = { what := "cell" }) : m.Sound :=
  ⟨hvertices ▸ Roster.sound_empty _ _, hcells ▸ Roster.sound_empty _ _⟩

/-- **A mesh that was read** has sound identifiers, whatever was stored. -/
theorem sound_of_ofDataset {name : Option String} (h : ofDataset ds name = .ok m) : m.Sound := by
  obtain ⟨m', hm', a, b, rfl⟩ := keptByAdding_sound.ofDataset (fun _ => sound_of_new) h
  exact ⟨hm'.vertices.setFull a, hm'.cells.setFull b⟩

end Stored

/-! ## Meshes that can be reached -/

/-- **The meshes that can be made**, and what calls on them and on their rosters leave of them. -/
inductive Reachable : Mesh Float → Prop
  | new {m : Mesh Float} (hvertices : m.vertices = { what := "vertex" })
      (hcells : m.cells = { what := "cell" }) : Reachable m
  | rectilinear {name : String} {projection : Option String} {xs ys : Array Float} {m : Mesh Float}
      (h : Mesh.rectilinear name projection xs ys = .ok m) : Reachable m
  | ofLatLon (g : LatLon Float) (name : String) : Reachable (ofLatLon g name)
  | ofDataset {ds : Dataset} {name : Option String} {m : Mesh Float}
      (h : Mesh.ofDataset ds name = .ok m) : Reachable m
  | call {m : Mesh Float} (h : Reachable m) (call : MeshCall Float) : Reachable (call.run.after m)
  | vertexCall {m : Mesh Float} (h : Reachable m) (call : RosterCall (Vertex Float)) :
      Reachable ((onVertices call.run).after m)
  | cellCall {m : Mesh Float} (h : Reachable m) (call : RosterCall (Cell Float)) :
      Reachable ((onCells call.run).after m)

/-- **In every mesh that can be reached** the identifiers are sound. -/
theorem Reachable.sound {m : Mesh Float} (h : m.Reachable) : m.Sound := by
  induction h with
  | new hvertices hcells => exact sound_of_new hvertices hcells
  | rectilinear h =>
    unfold Mesh.rectilinear at h
    split at h
    · cases h
      exact sound_product ..
    · cases h
  | ofLatLon g name => exact sound_product ..
  | ofDataset h => exact sound_of_ofDataset h
  | call _ call ih => exact (MeshCall.after_leaves _ call).sound ih
  | vertexCall _ call ih =>
    rw [onVertices, Attempt.after_within]
    exact ⟨call.after_sound ih.vertices, ih.cells⟩
  | cellCall _ call ih =>
    rw [onCells, Attempt.after_within]
    exact ⟨ih.vertices, call.after_sound ih.cells⟩

theorem Reachable.runAll {m : Mesh Float} (h : m.Reachable) (calls : List (MeshCall Float)) :
    (MeshCall.runAll calls m).Reachable :=
  MeshCall.runAll_induction (fun call _ _ h => h.call call) h

end Mesh

end Regrid

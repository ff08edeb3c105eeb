import Mathlib.Data.List.Infix
import Mathlib.Data.List.Nodup
import Regrid.Mesh.Store
import Regrid.Proofs.Keyed
import Regrid.Proofs.Mesh.Roster
import Regrid.Proofs.Number

/-!
# Writing meshes into one dataset

A mesh with integers of 64 bits is `Storable`; its variables are `Mesh.storedVariables`, and
`toDataset` adds them. Meshes under different names go into one dataset (`foldlM_toDataset`), as no
variable or dimension of one has the name of another's: names end in one of a few texts, none of
which is the end of another one (`SuffixFree`), so the end of a name tells what comes before it,
even if that looks like the name of a variable itself.
-/

namespace Regrid

/-! ## Names -/

/-- No text of a list ends in another one. -/
def SuffixFree (texts : List String) : Prop :=
  ∀ a ∈ texts, ∀ b ∈ texts, a.toList <:+ b.toList → a = b

instance (texts : List String) : Decidable (SuffixFree texts) :=
  inferInstanceAs (Decidable (∀ a ∈ texts, ∀ b ∈ texts, a.toList <:+ b.toList → a = b))

/-- What is put before such a text can be told. -/
theorem SuffixFree.append_inj {texts : List String} (h : SuffixFree texts) {s s' a b : String}
    (ha : a ∈ texts) (hb : b ∈ texts) (heq : s ++ a = s' ++ b) : s = s' ∧ a = b := by
  have hlist : s.toList ++ a.toList = s'.toList ++ b.toList := by
    rw [← String.toList_append, ← String.toList_append, heq]
  have hab : a = b := by
    rcases List.suffix_or_suffix_of_suffix (List.suffix_append s.toList a.toList)
      (hlist ▸ List.suffix_append s'.toList b.toList) with hs | hs
    · exact h a ha b hb hs
    · exact (h b hb a ha hs).symm
  subst hab
  exact ⟨String.toList_inj.mp (List.append_cancel_right hlist), rfl⟩

/-- The names made of different beginnings and such texts are different. -/
theorem SuffixFree.nodup_append {texts : List String} (h : SuffixFree texts) (htexts : texts.Nodup)
    {stores : List String} (hstores : stores.Nodup) :
    (stores.flatMap fun s => texts.map fun t => s ++ t).Nodup := by
  refine List.nodup_flatMap.mpr ⟨fun s _ => ?_, hstores.imp fun {s s'} hne => ?_⟩
  · exact htexts.map_on fun a ha b hb heq => (h.append_inj ha hb heq).2
  · intro name hs hs'
    obtain ⟨a, ha, rfl⟩ := List.mem_map.mp hs
    obtain ⟨b, hb, heq⟩ := List.mem_map.mp hs'
    exact hne (h.append_inj ha hb heq.symm).1

namespace StoreNames

/-- How the names of the variables end. -/
def variableEndings : List String :=
  [".info", ".vertices.index", ".vertices.xy", ".cells.index", ".cells.ijk", ".cells.native_area",
    ".cells.vertex_refs", ".cells.vertex_refs_start"]

/-- How the names of the dimensions end. -/
def dimEndings : List String :=
  [".vertices.nrealized", ".cells.nrealized", ".cells.nrealized_plus1", ".cells.nvertex_refs"]

theorem suffixFree_variableEndings : SuffixFree variableEndings := by decide

theorem suffixFree_dimEndings : SuffixFree dimEndings := by decide

end StoreNames

/-! ## What is written -/

theorem stored64_eq {n : Int} (h : Number.inInt64 n = true) : stored64 n = .ok n :=
  Number.toIdentifier_whole h

theorem mapM_stored64 {ns : List Int} (h : ∀ n ∈ ns, Number.inInt64 n = true) :
    ns.mapM stored64 = .ok ns :=
  (mapM_ok (g := id) fun n hn => stored64_eq (h n hn)).trans (congrArg _ (List.map_id ns))

theorem integerVector_eq {ns : List Int} (h : ∀ n ∈ ns, Number.inInt64 n = true) (dim : String) :
    Ticket.integerVector dim ns = .ok (Variable.integers dim ns) := by
  unfold Ticket.integerVector
  rw [mapM_stored64 h, bind_ok]
  rfl

namespace Mesh

/-- The settings of a mesh, as they are stored if its sizes fit into 64 bits. -/
def settings {α : Type} (m : Mesh α) : Attributes :=
  [("name", .text m.name), ("version", .int storeVersion), ("type", .int (Coded.code m.kind)),
      ("coordinates", .int (Coded.code m.coordinates)),
      ("parameterization", .int (Coded.code m.parameterization))]
    ++ (m.storedProjection?.toList.map fun s => ("projection", .text s))
    ++ [(cellsFullKey, .int m.cells.full), (verticesFullKey, .int m.vertices.full)]
    ++ storeComments.filter fun (k, _) =>
      k != "projection.comment" || !m.storedProjection?.toList.isEmpty

/-- The variables of a mesh that is stored under a name. -/
def storedVariables (m : Mesh Float) (store : String) : List (String × Variable) :=
  let n : StoreNames := ⟨store⟩
  let vertices := m.vertices.sorted
  let cells := m.cells.sorted
  [(n.info, Variable.single 0 m.settings),
    (n.vertexIndex, Variable.integers n.vertexDim (vertices.map Vertex.index)),
    (n.vertexPoints, .reals [n.vertexDim, "two"] [vertices.length, 2]
      (vertices.flatMap fun v => [v.x, v.y]).toArray),
    (n.cellIndex, Variable.integers n.cellDim (cells.map Cell.index)),
    (n.cellCoordinates, ⟨[n.cellDim, "three"], ⟨[cells.length, 3],
      ((cells.flatMap fun c => [c.i, c.j, c.k]).map Number.whole).toArray⟩, []⟩),
    (n.cellAreas, .reals [n.cellDim] [cells.length] (cells.map Cell.nativeArea).toArray),
    (n.refs, Variable.integers n.refDim (cells.flatMap Cell.refs)),
    (n.starts, Variable.integers n.startDim
      ((Ticket.startsOf 0 (cells.map fun c => c.refs.length)).map Int.ofNat))]

/-- A mesh that can be stored: identifiers are sound, the vertices of the cells are there, and all
integers have 64 bits. -/
structure Storable {α : Type} (m : Mesh α) : Prop where
  vertices : m.vertices.Sound
  cells : m.cells.Sound
  realized : ∀ c ∈ m.cells.items, ∀ v ∈ c.refs, v ∈ m.vertices.keys
  vertex_index : ∀ v ∈ m.vertices.items, Number.inInt64 v.index = true
  cell_index : ∀ c ∈ m.cells.items, Number.inInt64 c.index = true
  cell_coordinates : ∀ c ∈ m.cells.items,
    Number.inInt64 c.i = true ∧ Number.inInt64 c.j = true ∧ Number.inInt64 c.k = true
  vertices_full : Number.inInt64 m.vertices.full = true
  cells_full : Number.inInt64 m.cells.full = true
  ref_count : Number.inInt64 m.refCount = true

/-- The integers of the vertices and cells have 64 bits. -/
structure EntriesFit {α : Type} (m : Mesh α) : Prop where
  vertex_index : ∀ v ∈ m.vertices.items, Number.inInt64 v.index = true
  cell_index : ∀ c ∈ m.cells.items, Number.inInt64 c.index = true
  cell_coordinates : ∀ c ∈ m.cells.items,
    Number.inInt64 c.i = true ∧ Number.inInt64 c.j = true ∧ Number.inInt64 c.k = true
  refs : ∀ c ∈ m.cells.items, ∀ v ∈ c.refs, Number.inInt64 v = true

/-- All integers that are stored of a mesh have 64 bits. -/
structure Fits {α : Type} (m : Mesh α) : Prop extends EntriesFit m where
  vertices_full : Number.inInt64 m.vertices.full = true
  cells_full : Number.inInt64 m.cells.full = true

/-- The references have 64 bits as soon as the identifiers of the vertices do. -/
theorem Resolved.inInt64_refs {α : Type} {m : Mesh α} (h : m.Resolved)
    (hindex : ∀ v ∈ m.vertices.items, Number.inInt64 v.index = true) :
    ∀ c ∈ m.cells.items, ∀ v ∈ c.refs, Number.inInt64 v = true := by
  intro c hc v hv
  obtain ⟨x, hx, rfl⟩ := List.mem_map.mp (h c hc v hv)
  exact hindex x hx

theorem Storable.sound {α : Type} {m : Mesh α} (h : m.Storable) : m.Sound := ⟨h.vertices, h.cells⟩

theorem Storable.fits {α : Type} {m : Mesh α} (h : m.Storable) : m.Fits where
  vertex_index := h.vertex_index
  cell_index := h.cell_index
  cell_coordinates := h.cell_coordinates
  refs := Resolved.inInt64_refs h.realized h.vertex_index
  vertices_full := h.vertices_full
  cells_full := h.cells_full

theorem storeInfo_eq {α : Type} {m : Mesh α} (hcells : Number.inInt64 m.cells.full = true)
    (hvertices : Number.inInt64 m.vertices.full = true) : m.storeInfo = .ok m.settings := by
  unfold storeInfo
  rw [stored64_eq hcells, bind_ok, stored64_eq hvertices, bind_ok]
  unfold settings
  simp only [List.isEmpty_map]
  rfl

/-- **The variables of a mesh** can be written if its integers fit. -/
theorem contents_eq {m : Mesh Float} (h : m.EntriesFit) (store : String)
    (dims : List (String × Nat)) :
    Ticket.contents ⟨store, m.settings, dims⟩ m = .ok (m.storedVariables store) := by
  have hvertices : ∀ n ∈ m.vertices.sorted.map Vertex.index, Number.inInt64 n = true := by
    intro n hn
    obtain ⟨v, hv, rfl⟩ := List.mem_map.mp hn
    exact h.vertex_index v (Roster.mem_sorted.mp hv)
  have hcells : ∀ n ∈ m.cells.sorted.map Cell.index, Number.inInt64 n = true := by
    intro n hn
    obtain ⟨c, hc, rfl⟩ := List.mem_map.mp hn
    exact h.cell_index c (Roster.mem_sorted.mp hc)
  have hcoordinates : ∀ n ∈ m.cells.sorted.flatMap (fun c => [c.i, c.j, c.k]),
      Number.inInt64 n = true := by
    intro n hn
    obtain ⟨c, hc, hn⟩ := List.mem_flatMap.mp hn
    obtain ⟨hi, hj, hk⟩ := h.cell_coordinates c (Roster.mem_sorted.mp hc)
    simp only [List.mem_cons, List.not_mem_nil, or_false] at hn
    rcases hn with rfl | rfl | rfl <;> assumption
  have hrefs : ∀ n ∈ m.cells.sorted.flatMap Cell.refs, Number.inInt64 n = true := by
    intro n hn
    obtain ⟨c, hc, hn⟩ := List.mem_flatMap.mp hn
    exact h.refs c (Roster.mem_sorted.mp hc) n hn
  unfold Ticket.contents
  simp only [mapM_stored64 hcoordinates, integerVector_eq hvertices, integerVector_eq hcells,
    integerVector_eq hrefs, bind_ok]
  rfl

/-! ## Extents -/

theorem length_startsOf : ∀ (start : Nat) (ns : List Nat),
    (Ticket.startsOf start ns).length = ns.length + 1
  | _, [] => rfl
  | start, n :: ns => congrArg Nat.succ (length_startsOf (start + n) ns)

theorem length_sorted {ε : Type} [Numbered ε] (r : Roster ε) : r.sorted.length = r.size :=
  (Roster.sorted_perm r).length_eq

theorem length_sorted_refs (m : Mesh Float) : (m.cells.sorted.flatMap Cell.refs).length =
    m.refCount :=
  ((Roster.sorted_perm m.cells).flatMap_right Cell.refs).length_eq

/-- The extents of the dimensions on which a mesh is stored. -/
def extents (m : Mesh Float) (store : String) : List (String × Nat) :=
  m.storeDims ⟨store⟩ ++ [("two", 2), ("three", 3)]

/-- The variables of a mesh lie on its dimensions. -/
theorem storedVariables_extents (m : Mesh Float) (store : String) {p : String × Variable}
    (hp : p ∈ m.storedVariables store) :
    p.2.dims.length = p.2.values.shape.length ∧
      ∀ q ∈ p.2.dims.zip p.2.values.shape, q ∈ m.extents store := by
  unfold storedVariables at hp
  simp only [List.mem_cons, List.not_mem_nil, or_false] at hp
  rcases hp with rfl | rfl | rfl | rfl | rfl | rfl | rfl | rfl <;>
    simp [-List.length_flatMap, Variable.single, Variable.integers, Variable.reals, Tensor.scalar,
      Tensor.ofArray, extents, storeDims, length_sorted, length_sorted_refs, length_startsOf]

end Mesh

/-- Variables that lie on the dimensions of a table, in which each occurs once, are consistent. -/
theorem Dataset.consistent_of_table {ds : Dataset} {table : List (String × Nat)}
    (htable : Keyed table)
    (h : ∀ p ∈ ds.all, p.2.dims.length = p.2.values.shape.length ∧
      ∀ q ∈ p.2.dims.zip p.2.values.shape, q ∈ table) : ds.consistent = true := by
  unfold consistent
  simp only [List.all_eq_true, Bool.and_eq_true, beq_iff_eq]
  refine fun p hp => ⟨(h p hp).1, fun q hq => ?_⟩
  refine valueAt?_lastValues (List.mem_flatMap.mpr ⟨p, hp, hq⟩) fun n hn => ?_
  obtain ⟨p', hp', hq'⟩ := List.mem_flatMap.mp hn
  exact htable.value_unique ((h p' hp').2 _ hq') ((h p hp).2 q hq)

/-! ## Many meshes -/

section Many

variable {grids : List (String × Mesh Float)}

/-- The variables of meshes that are stored one after the other. -/
def allVariables (grids : List (String × Mesh Float)) : List (String × Variable) :=
  grids.flatMap fun g => g.2.storedVariables g.1

/-- **No two variables have one name**, if no two meshes do. -/
theorem keyed_allVariables (h : (grids.map Prod.fst).Nodup) : Keyed (allVariables grids) := by
  have hnames : (allVariables grids).map Prod.fst =
      (grids.map Prod.fst).flatMap fun s => StoreNames.variableEndings.map fun t => s ++ t := by
    unfold allVariables
    rw [List.map_flatMap, List.flatMap_map]
    rfl
  unfold Keyed
  rw [hnames]
  exact StoreNames.suffixFree_variableEndings.nodup_append (by decide) h

/-- **Nor two dimensions.** -/
theorem keyed_extents (h : (grids.map Prod.fst).Nodup) :
    Keyed (grids.flatMap (fun g => g.2.storeDims ⟨g.1⟩) ++ [("two", 2), ("three", 3)]) := by
  have hnames : (grids.flatMap fun g => g.2.storeDims ⟨g.1⟩).map Prod.fst =
      (grids.map Prod.fst).flatMap fun s => StoreNames.dimEndings.map fun t => s ++ t := by
    rw [List.map_flatMap, List.flatMap_map]
    rfl
  unfold Keyed
  rw [List.map_append, hnames, List.nodup_append]
  refine ⟨StoreNames.suffixFree_dimEndings.nodup_append (by decide) h, by decide, ?_⟩
  rintro name hname other hother rfl
  obtain ⟨s, -, hs⟩ := List.mem_flatMap.mp hname
  obtain ⟨t, ht, rfl⟩ := List.mem_map.mp hs
  -- the shared dimensions do not end like those of a mesh
  have hend : ∀ t ∈ StoreNames.dimEndings, ∀ name ∈ [("two", 2), ("three", 3)].map Prod.fst,
      ¬ t.toList <:+ name.toList := by
    decide
  refine hend t ht _ hother ?_
  rw [String.toList_append]
  exact List.suffix_append _ _

theorem consistent_allVariables (h : (grids.map Prod.fst).Nodup) :
    Dataset.consistent { data := allVariables grids } = true := by
  refine Dataset.consistent_of_table (keyed_extents h) fun p hp => ?_
  obtain ⟨g, hg, hp⟩ := List.mem_flatMap.mp (show p ∈ allVariables grids from hp)
  obtain ⟨hdims, hmem⟩ := g.2.storedVariables_extents g.1 hp
  refine ⟨hdims, fun q hq => ?_⟩
  rcases List.mem_append.mp (hmem q hq) with hq | hq
  · exact List.mem_append_left _ (List.mem_flatMap.mpr ⟨g, hg, hq⟩)
  · exact List.mem_append_right _ hq

theorem Mesh.keyed_extents (m : Mesh Float) (store : String) : Keyed (m.extents store) := by
  simpa [Mesh.extents] using @Regrid.keyed_extents [(store, m)] (List.nodup_singleton _)

theorem Mesh.keyed_storeDims (m : Mesh Float) (store : String) : Keyed (m.storeDims ⟨store⟩) :=
  (m.keyed_extents store).sublist ((List.sublist_append_left _ _).map Prod.fst)

/-- The declared extents are those of the mesh. -/
theorem checkDims_eq (m : Mesh Float) (store : String) :
    Ticket.checkDims ⟨store, m.settings, m.extents store⟩ m = .ok () := by
  refine forM_ok fun p hp => ?_
  have hvalue : valueAt? p.1 (m.extents store) = some p.2 :=
    valueAt?_of_mem (m.keyed_extents store) (List.mem_append_left _ hp)
  simp only [hvalue, Option.getD_some, if_true]

/-- What is declared about a mesh whose sizes fit. -/
theorem define_eq {m : Mesh Float} (hcells : Number.inInt64 m.cells.full = true)
    (hvertices : Number.inInt64 m.vertices.full = true) {name : Option String} {store : String}
    (hstore : firstName [name.getD "", m.name] = store) :
    Ticket.define m name = .ok ⟨store, m.settings, m.extents store⟩ := by
  unfold Ticket.define
  rw [m.storeInfo_eq hcells hvertices, bind_ok, hstore]
  rfl

/-- A ticket adds the variables of a mesh that it fits, if the dataset is consistent with them. -/
theorem Ticket.write_eq {t : Ticket} {m : Mesh Float} (hdims : t.checkDims m = .ok ())
    {vars : List (String × Variable)} (hvars : t.contents m = .ok vars) (ds : Dataset) :
    t.write m ds = if ({ ds with data := assignKeys vars ds.data } : Dataset).consistent
      then .ok { ds with data := assignKeys vars ds.data } else .error .invalidValue := by
  unfold Ticket.write
  rw [hdims, bind_ok, hvars, bind_ok]
  rfl

/-- **Writing a mesh** adds its variables, if the dataset is consistent with them. -/
theorem toDataset_of_fits {m : Mesh Float} (h : m.Fits) {name : Option String} {store : String}
    (hstore : firstName [name.getD "", m.name] = store) (ds : Dataset) : m.toDataset name ds =
      if ({ ds with data := assignKeys (m.storedVariables store) ds.data } : Dataset).consistent
      then .ok { ds with data := assignKeys (m.storedVariables store) ds.data }
      else .error .invalidValue := by
  unfold Mesh.toDataset
  rw [define_eq h.cells_full h.vertices_full hstore, bind_ok]
  exact Ticket.write_eq (checkDims_eq m store) (Mesh.contents_eq h.toEntriesFit store _) ds

/-- Writing a storable mesh. -/
theorem toDataset_eq {m : Mesh Float} (h : m.Storable) {store : String} (hstore : store ≠ "")
    (ds : Dataset) : m.toDataset (some store) ds =
      if ({ ds with data := assignKeys (m.storedVariables store) ds.data } : Dataset).consistent
      then .ok { ds with data := assignKeys (m.storedVariables store) ds.data }
      else .error .invalidValue := by
  have hname : firstName [(some store).getD "", m.name] = store := if_neg hstore
  exact toDataset_of_fits h.fits hname ds

/-- **Meshes under different names** can be stored one after the other. -/
theorem foldlM_toDataset (hnames : (grids.map Prod.fst).Nodup) (hnonempty : ∀ g ∈ grids, g.1 ≠ "")
    (h : ∀ g ∈ grids, g.2.Storable) :
    grids.foldlM (fun ds g => g.2.toDataset (some g.1) ds) {} =
      .ok { data := allVariables grids } := by
  have hrun : ∀ (rest done : List (String × Mesh Float)),
      ((done ++ rest).map Prod.fst).Nodup → (∀ g ∈ rest, g.1 ≠ "" ∧ g.2.Storable) →
      rest.foldlM (fun ds g => g.2.toDataset (some g.1) ds) { data := allVariables done } =
        .ok { data := allVariables (done ++ rest) } := by
    intro rest
    induction rest with
    | nil => intro done _ _; rw [List.append_nil]; rfl
    | cons g rest ih =>
      intro done hnodup hrest
      obtain ⟨hne, hg⟩ := hrest g List.mem_cons_self
      have hprefix : ((done ++ [g]).map Prod.fst).Nodup := by
        refine hnodup.sublist (List.Sublist.map _ ?_)
        exact List.Sublist.append_left (List.singleton_sublist.mpr List.mem_cons_self) done
      have hdata : assignKeys (g.2.storedVariables g.1) (allVariables done) =
          allVariables (done ++ [g]) := by
        have hkeyed := keyed_allVariables hprefix
        unfold allVariables at hkeyed ⊢
        rw [List.flatMap_append, List.flatMap_singleton] at hkeyed ⊢
        exact assignKeys_eq_append hkeyed
      rw [List.foldlM_cons, toDataset_eq hg hne, hdata, if_pos (consistent_allVariables hprefix),
        bind_ok, ih _ (by rwa [List.append_assoc])
          fun g' hg' => hrest g' (List.mem_cons_of_mem g hg'), List.append_assoc]
      rfl
  exact hrun grids [] hnames fun g hg => ⟨hnonempty g hg, h g hg⟩

end Many

end Regrid

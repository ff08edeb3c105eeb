import Regrid.Proofs.Mesh.Calls
import Regrid.Proofs.Mesh.Restore

/-!
# Reading damaged stores

Whatever the arrays of a store hold, the reader (`grid_from_dataset`) refuses them or gives their
rows (`ofDataset_exact`). Rows are added one after the other (`Roster.addAll`), which keeps them as
they are unless an identifier is negative (`items_addAll`), and all references are looked up.
Offsets that never decrease cut the references into parts that use each once (`flatMap_partOf`). The
reader checks that with 64 bits, which is enough as long as no difference is larger
(`steps_of_check`).

Two kinds of damage are not noticed: offsets whose differences wrap around (`ofDataset_wrapped`),
and negative identifiers, which are taken for none (`ofDataset_renumbered`).
-/

namespace Regrid

/-! ## Adding many -/

namespace Roster

variable {ε β : Type} [Numbered ε] {r r' : Roster ε}

/-- Add entities one after the other. -/
def addAll (r : Roster ε) (xs : List ε) : Except Error (Roster ε) :=
  xs.foldlM (fun r x => return (← r.add x).1) r

theorem addAll_cons_of_add {x y : ε} (h : r.add x = .ok (r', y)) (xs : List ε) :
    r.addAll (x :: xs) = r'.addAll xs := by
  have hstep : (do return (← r.add x).1) = Except.ok (ε := Error) r' := by
    rw [h]
    rfl
  unfold addAll
  rw [List.foldlM_cons]
  exact bind_of_ok hstep _

theorem addAll_cons {x : ε} {xs : List ε} (h : r.addAll (x :: xs) = .ok r') :
    ∃ r₁ y, r.add x = .ok (r₁, y) ∧ r₁.addAll xs = .ok r' := by
  unfold addAll at h
  rw [List.foldlM_cons] at h
  obtain ⟨_, hstep, hrest⟩ := bind_eq_ok.mp h
  obtain ⟨p, hadd, hp⟩ := bind_eq_ok.mp hstep
  cases hp
  exact ⟨p.1, p.2, hadd, hrest⟩

/-- What does not depend on the identifiers is kept in any case. -/
theorem map_items_addAll (f : ε → β) (hf : ∀ x n, f (Numbered.renumber x n) = f x) :
    ∀ {xs : List ε} {r : Roster ε}, r.addAll xs = .ok r' →
      r'.items.map f = r.items.map f ++ xs.map f
  | [], r, h => by
    cases h
    exact (List.append_nil _).symm
  | x :: xs, r, h => by
    obtain ⟨r₁, y, hadd, hrest⟩ := addAll_cons h
    obtain ⟨hitems, rfl⟩ := items_add hadd
    have hx : f (r.numbered x) = f x := by
      unfold numbered
      split
      · exact hf x _
      · rfl
    rw [map_items_addAll f hf hrest, hitems, List.map_append, List.map_singleton, hx,
      List.append_assoc, List.map_cons, List.singleton_append]

/-- Entities with identifiers are kept as they are. -/
theorem items_addAll : ∀ {xs : List ε} {r : Roster ε}, r.addAll xs = .ok r' →
    (∀ x ∈ xs, 0 ≤ Numbered.index x) → r'.items = r.items ++ xs
  | [], r, h, _ => by
    cases h
    exact (List.append_nil _).symm
  | x :: xs, r, h, hnonneg => by
    obtain ⟨hx, hxs⟩ := List.forall_mem_cons.mp hnonneg
    obtain ⟨r₁, y, hadd, hrest⟩ := addAll_cons h
    obtain ⟨hitems, rfl⟩ := items_add hadd
    have hnumbered : r.numbered x = x := if_neg (not_lt.mpr hx)
    rw [items_addAll hrest hxs, hitems, hnumbered, List.append_assoc, List.singleton_append]

end Roster

/-! ## Parts between offsets -/

theorem partOf_map {α β : Type} (f : α → β) (xs : List α) (start stop : Int) :
    partOf (xs.map f) start stop = (partOf xs start stop).map f := by
  unfold partOf
  simp only [List.length_map, List.map_take, List.map_drop]

/-- **Parts between offsets** that never decrease use everything once, from the first offset to the
end. -/
theorem flatMap_partOf {α : Type} (xs : List α) : ∀ {start : Int} {rest : List Int}, 0 ≤ start →
    (start :: rest).getLast? = some (xs.length : Int) →
    (∀ p ∈ (start :: rest).zip rest, p.1 ≤ p.2) →
    start ≤ xs.length ∧
      (((start :: rest).zip rest).flatMap fun p => partOf xs p.1 p.2) = xs.drop start.toNat
  | start, [], _, hlast, _ => by
    obtain rfl : start = xs.length := Option.some.inj hlast
    exact ⟨le_rfl, by rw [Int.toNat_natCast, List.drop_length]; rfl⟩
  | start, stop :: rest, hstart, hlast, hsteps => by
    rw [List.zip_cons_cons, List.forall_mem_cons] at hsteps
    obtain ⟨hstep, hsteps⟩ := hsteps
    rw [List.getLast?_cons_cons] at hlast
    obtain ⟨hstop, hrest⟩ := flatMap_partOf xs (hstart.trans hstep) hlast hsteps
    have hle : start ≤ stop := hstep
    refine ⟨hle.trans hstop, ?_⟩
    obtain ⟨i, rfl⟩ := Int.eq_ofNat_of_zero_le hstart
    obtain ⟨j, rfl⟩ := Int.eq_ofNat_of_zero_le (hstart.trans hle)
    have hij : i ≤ j := by omega
    have hj : j ≤ xs.length := by omega
    have hpart : partOf xs i j = (xs.drop i).take (j - i) := by
      unfold partOf
      simp only
      rw [boundedPlace_natCast (hij.trans hj), boundedPlace_natCast hj]
    rw [List.zip_cons_cons, List.flatMap_cons, hrest, hpart, Int.toNat_natCast, Int.toNat_natCast]
    have hdrop : xs.drop j = (xs.drop i).drop (j - i) := by
      rw [List.drop_drop, Nat.add_sub_cancel' hij]
    rw [hdrop, List.take_append_drop]

theorem checkOffsets_eq_ok {offsets : List Number} {total : Nat} {name : String}
    (h : checkOffsets offsets total name = .ok ()) : validOffsets offsets total = true := by
  unfold checkOffsets at h
  split at h
  · assumption
  · cases h

/-- A difference of 64 bits does not wrap around. -/
theorem le_of_not_decreases {a b : Int} (h : decreases (.whole a) (.whole b) = false)
    (hfit : Number.inInt64 (b - a) = true) : a ≤ b := by
  have htwo : (Decimal.twoTo 64 : Int) = 2 ^ 64 := rfl
  have hmod : (b - a).bmod (Decimal.twoTo 64) = b - a := by
    have hbits := Number.inInt64_iff.mp hfit
    exact Int.bmod_eq_of_le (by omega) (by omega)
  unfold decreases at h
  simp only [hmod, decide_eq_false_iff_not] at h
  omega

/-- **What the check of offsets means**, if no difference has more than 64 bits. -/
theorem steps_of_check {starts : List Int} {total : Nat}
    (h : validOffsets (starts.map Number.whole) total = true)
    (hfit : ∀ p ∈ starts.zip (starts.drop 1), Number.inInt64 (p.2 - p.1) = true) :
    ∃ rest, starts = 0 :: rest ∧ starts.getLast? = some (total : Int) ∧
      ∀ p ∈ starts.zip rest, p.1 ≤ p.2 := by
  unfold validOffsets at h
  simp only [Bool.and_eq_true, List.all_eq_true] at h
  obtain ⟨⟨hhead, hlast⟩, hsteps⟩ := h
  cases starts with
  | nil => cases hhead
  | cons start rest =>
    have hzero : (some (start : Rat) == some 0) = true := hhead
    rw [beq_iff_eq, Option.some.injEq] at hzero
    obtain rfl : start = 0 := by exact_mod_cast hzero
    refine ⟨rest, rfl, ?_, fun p hp => ?_⟩
    · have hstop := List.getLast?_eq_some_getLast (List.cons_ne_nil 0 rest)
      rw [List.getLast?_map, hstop] at hlast
      have htotal : (some (((0 :: rest).getLast _ : Int) : Rat) == some (total : Rat)) = true :=
        hlast
      rw [beq_iff_eq, Option.some.injEq] at htotal
      rw [hstop]
      exact congrArg some (by exact_mod_cast htotal)
    · have hpair : (Number.whole p.1, Number.whole p.2) ∈
          ((0 :: rest).map Number.whole).zip (((0 :: rest).map Number.whole).drop 1) := by
        rw [← List.map_drop, List.zip_map]
        exact List.mem_map_of_mem hp
      exact le_of_not_decreases (by simpa using hsteps _ hpair) (hfit p hp)

/-! ## Arrays of integers -/

namespace Variable

/-- An array of integers that has a value at every place. -/
structure Integral (v : Variable) : Prop where
  filled : v.values.values.size = Tensor.extent v.values.shape
  whole : ∃ ns : List Int, v.values.values.toList = ns.map Number.whole

variable {v : Variable}

/-- An array of one axis has as many integers as its extent says. -/
theorem Integral.toList_eq (h : v.Integral) {n : Nat} (hshape : v.values.shape = [n]) :
    ∃ ns : List Int, v.values.values.toList = ns.map Number.whole ∧ ns.length = n := by
  obtain ⟨ns, hns⟩ := h.whole
  refine ⟨ns, hns, ?_⟩
  have hfilled := h.filled
  rw [hshape, ← Array.length_toList, hns, List.length_map] at hfilled
  exact hfilled.trans (Nat.one_mul n)

theorem Integral.vector_eq (h : v.Integral) {n : Nat} {xs : List Number}
    (hlength : v.length = .ok n) (hvector : v.vector = .ok xs) :
    ∃ ns : List Int, xs = ns.map Number.whole ∧ ns.length = n := by
  unfold length at hlength
  unfold vector at hvector
  split at hvector
  · rename_i k hshape
    rw [hshape] at hlength
    cases hlength
    cases hvector
    exact h.toList_eq hshape
  · rename_i k rest _ hshape
    rw [hshape] at hlength
    cases hlength
    split at hvector
    · cases hvector
      exact ⟨[], rfl, Eq.symm ‹_›⟩
    · cases hvector
  · cases hvector

theorem integral_integers (dim : String) (ns : List Int) : (integers dim ns).Integral := by
  refine ⟨?_, ns, rfl⟩
  rw [← Array.length_toList, toList_integers, shape_integers, List.length_map]
  exact (Nat.one_mul _).symm

/-- The integers of a vector are told by it. -/
theorem eq_of_vector_integers {ds : Dataset} {name dim : String} {ns ms : List Int}
    (hget : ds.get? name = some (integers dim ns))
    (h : ∃ v, ds.get? name = some v ∧ v.vector = .ok (ms.map Number.whole)) : ms = ns := by
  obtain ⟨v, hv, hvector⟩ := h
  obtain rfl : integers dim ns = v := Option.some.inj (hget.symm.trans hv)
  rw [vector_integers] at hvector
  have hinjective : Function.Injective Number.whole := fun _ _ heq => Number.whole.inj heq
  exact (hinjective.list_map (Except.ok.inj hvector)).symm

theorem valueAt_whole {ns : List Int} (h : v.values.values.toList = ns.map Number.whole) (i : Nat) :
    v.valueAt i = .whole (ns.getD i 0) := by
  unfold valueAt
  rw [Array.getD_eq_getD_getElem?, ← Array.getElem?_toList, h, List.getElem?_map,
    List.getD_eq_getElem?_getD]
  cases ns[i]? <;> rfl

end Variable

/-! ## Rows of a store -/

/-- The arrays of the vertices of a stored mesh. -/
structure VertexArrays where
  index : List Int
  points : Variable

/-- The arrays of the cells. -/
structure CellArrays where
  index : List Int
  ijk : List Int
  areas : Variable
  refs : List Int
  starts : List Int

/-- The vertex of a row: its identifier stands before the place of the row. -/
def vertexRow (points : Variable) (row : Int × Nat) : Vertex Float :=
  ⟨(points.valueAt (2 * row.2)).toFloat, (points.valueAt (2 * row.2 + 1)).toFloat, row.1⟩

/-- The cell of a row: its identifier and the places where its references begin and end stand before
the place of the row. -/
def cellRow (refs ijk : List Int) (areas : Variable) (row : (Int × Int × Int) × Nat) : Cell Float :=
  ⟨partOf refs row.1.2.1 row.1.2.2, row.1.1, ijk.getD (3 * row.2) 0, ijk.getD (3 * row.2 + 1) 0,
    ijk.getD (3 * row.2 + 2) 0, (areas.valueAt row.2).toFloat⟩

namespace VertexArrays

/-- A dataset holds these arrays under a name. -/
structure In (a : VertexArrays) (ds : Dataset) (store : String) : Prop where
  index : ∃ v, ds.get? (StoreNames.vertexIndex ⟨store⟩) = some v ∧
    v.vector = .ok (a.index.map Number.whole)
  points : ds.get? (StoreNames.vertexPoints ⟨store⟩) = some a.points
  points_shape : a.points.values.shape = [a.index.length, 2]

def rows (a : VertexArrays) : List (Vertex Float) := a.index.zipIdx.map (vertexRow a.points)

/-- There is a row for each identifier. -/
theorem map_index_rows (a : VertexArrays) : a.rows.map Vertex.index = a.index := by
  unfold rows
  rw [List.map_map]
  exact List.zipIdx_map_fst 0 a.index

end VertexArrays

namespace CellArrays

/-- A dataset holds these arrays under a name. -/
structure In (a : CellArrays) (ds : Dataset) (store : String) : Prop where
  index : ∃ v, ds.get? (StoreNames.cellIndex ⟨store⟩) = some v ∧
    v.vector = .ok (a.index.map Number.whole)
  ijk : ∃ v, ds.get? (StoreNames.cellCoordinates ⟨store⟩) = some v ∧
    v.values.shape = [a.index.length, 3] ∧ v.values.values.toList = a.ijk.map Number.whole
  areas : ds.get? (StoreNames.cellAreas ⟨store⟩) = some a.areas
  areas_shape : a.areas.values.shape = [a.index.length]
  refs : ∃ v, ds.get? (StoreNames.refs ⟨store⟩) = some v ∧
    v.vector = .ok (a.refs.map Number.whole)
  starts : ∃ v, ds.get? (StoreNames.starts ⟨store⟩) = some v ∧
    v.values.shape = [a.index.length + 1] ∧ v.vector = .ok (a.starts.map Number.whole)
  starts_length : a.starts.length = a.index.length + 1

/-- The references of a row are those from its offset to the next one. -/
def rows (a : CellArrays) : List (Cell Float) :=
  (a.index.zip (a.starts.zip (a.starts.drop 1))).zipIdx.map (cellRow a.refs a.ijk a.areas)

variable {a : CellArrays}

theorem length_spans (h : a.starts.length = a.index.length + 1) :
    (a.starts.zip (a.starts.drop 1)).length = a.index.length := by
  rw [List.length_zip, List.length_drop]
  omega

/-- There is a row for each identifier. -/
theorem map_index_rows (h : a.starts.length = a.index.length + 1) :
    a.rows.map Cell.index = a.index := by
  calc a.rows.map Cell.index
      = ((a.index.zip (a.starts.zip (a.starts.drop 1))).zipIdx.map Prod.fst).map Prod.fst := by
        unfold rows
        rw [List.map_map, List.map_map]
        rfl
    _ = a.index := by rw [List.zipIdx_map_fst, List.map_fst_zip (length_spans h).ge]

/-- There is a row for each part of the references. -/
theorem map_refs_rows (h : a.starts.length = a.index.length + 1) : a.rows.map Cell.refs =
    (a.starts.zip (a.starts.drop 1)).map fun p => partOf a.refs p.1 p.2 := by
  calc a.rows.map Cell.refs
      = ((a.index.zip (a.starts.zip (a.starts.drop 1))).zipIdx.map Prod.fst).map
          fun z => partOf a.refs z.2.1 z.2.2 := by
        unfold rows
        rw [List.map_map, List.map_map]
        rfl
    _ = ((a.index.zip (a.starts.zip (a.starts.drop 1))).map Prod.snd).map
          fun p => partOf a.refs p.1 p.2 := by
        rw [List.zipIdx_map_fst, List.map_map]
        rfl
    _ = _ := by rw [List.map_snd_zip (length_spans h).le]

/-- **The rows use each reference once**, if the offsets pass and no difference wraps around. -/
theorem flatMap_refs_rows (h : a.starts.length = a.index.length + 1)
    (hvalid : validOffsets (a.starts.map Number.whole) a.refs.length = true)
    (hfit : ∀ p ∈ a.starts.zip (a.starts.drop 1), Number.inInt64 (p.2 - p.1) = true) :
    a.rows.flatMap Cell.refs = a.refs := by
  obtain ⟨rest, hstarts, hlast, hsteps⟩ := steps_of_check hvalid hfit
  rw [hstarts] at hlast hsteps
  obtain ⟨-, hall⟩ := flatMap_partOf a.refs le_rfl hlast hsteps
  have hzip : a.starts.zip (a.starts.drop 1) = (0 :: rest).zip rest := by
    rw [hstarts]
    rfl
  rw [List.flatMap_def, map_refs_rows h, hzip, ← List.flatMap_def, hall]
  rfl

end CellArrays

namespace Mesh

variable {m m' : Mesh Float} {ds : Dataset} {store : String}

/-! ## Reading the rows -/

theorem addStoredVertex_eq_ok {index : Int} {x y : Float}
    (h : m.addStoredVertex (.whole index) x y = .ok m') :
    ∃ vertices v, m.vertices.add ⟨x, y, index⟩ = .ok (vertices, v) ∧
      m' = { m with vertices } := by
  unfold addStoredVertex addVertex at h
  rw [Number.toInt_whole, bind_ok] at h
  obtain ⟨_, hstep, hm'⟩ := bind_eq_ok.mp h
  obtain ⟨p, hadd, hp⟩ := bind_eq_ok.mp hstep
  cases hp
  cases hm'
  exact ⟨p.1, p.2, hadd, rfl⟩

/-- A cell that was added has its vertices. -/
theorem addStoredCell_eq_ok {refs : List Int} {index i j k : Int} {area : Float}
    (h : m.addStoredCell (refs.map .whole) (.whole index) (.whole i) (.whole j) (.whole k) area =
      .ok m') : (∀ v ∈ refs, v ∈ m.vertices.keys) ∧ ∃ cells c,
        m.cells.add ⟨refs, index, i, j, k, area⟩ = .ok (cells, c) ∧ m' = { m with cells } := by
  unfold addStoredCell addCell at h
  simp only [Number.toInt_whole, Number.mapM_toInt_whole, bind_ok] at h
  split at h
  · cases h
  obtain ⟨_, hstep, hm'⟩ := bind_eq_ok.mp h
  obtain ⟨_, hcheck, hstep⟩ := bind_eq_ok.mp hstep
  obtain ⟨p, hadd, hp⟩ := bind_eq_ok.mp hstep
  cases hp
  cases hm'
  refine ⟨fun v hv => ?_, p.1, p.2, hadd, rfl⟩
  obtain ⟨-, hrefs⟩ := (m.checkVertices_cases (refs.map .whole)).resolve_left fun ⟨e, he⟩ => by
    rw [hcheck] at he
    cases he
  have hkey := hrefs (.whole v) (List.mem_map_of_mem hv)
  rwa [hasVertex_whole, Roster.contains_iff] at hkey

/-- **Reading vertices** adds the rows one after the other. -/
theorem addAll_of_foldlM_addStoredVertex (points : Variable) : ∀ {rows : List (Int × Nat)}
    {m : Mesh Float},
    (rows.map fun row => (Number.whole row.1, row.2)).foldlM (fun m (index, i) =>
        m.addStoredVertex index (points.valueAt (2 * i)).toFloat
          (points.valueAt (2 * i + 1)).toFloat) m = .ok m' →
      m.vertices.addAll (rows.map (vertexRow points)) = .ok m'.vertices ∧ m'.cells = m.cells
  | [], m, h => by
    cases h
    exact ⟨rfl, rfl⟩
  | row :: rows, m, h => by
    rw [List.map_cons, List.foldlM_cons] at h
    obtain ⟨m₁, hstep, hrest⟩ := bind_eq_ok.mp h
    obtain ⟨vertices, v, hadd, rfl⟩ := addStoredVertex_eq_ok hstep
    obtain ⟨hvertices, hcells⟩ := addAll_of_foldlM_addStoredVertex points hrest
    exact ⟨(Roster.addAll_cons_of_add hadd _).trans hvertices, hcells⟩

/-- **Reading cells** adds the rows one after the other, and each names vertices that are there. -/
theorem addAll_of_foldlM_addStoredCell {refs ijk : List Int} {coordinates areas : Variable}
    (hijk : coordinates.values.values.toList = ijk.map Number.whole) :
    ∀ {rows : List ((Int × Int × Int) × Nat)} {m : Mesh Float},
    (rows.map fun row => ((Number.whole row.1.1, row.1.2), row.2)).foldlM
        (fun m ((index, start, stop), i) =>
          m.addStoredCell (partOf (refs.map Number.whole) start stop) index
            (coordinates.valueAt (3 * i)) (coordinates.valueAt (3 * i + 1))
            (coordinates.valueAt (3 * i + 2)) (areas.valueAt i).toFloat) m = .ok m' →
      m.cells.addAll (rows.map (cellRow refs ijk areas)) = .ok m'.cells ∧
        m'.vertices = m.vertices ∧
        ∀ c ∈ rows.map (cellRow refs ijk areas), ∀ v ∈ c.refs, v ∈ m.vertices.keys
  | [], m, h => by
    cases h
    exact ⟨rfl, rfl, fun c hc => absurd hc List.not_mem_nil⟩
  | row :: rows, m, h => by
    rw [List.map_cons, List.foldlM_cons] at h
    obtain ⟨m₁, hstep, hrest⟩ := bind_eq_ok.mp h
    simp only [partOf_map, Variable.valueAt_whole hijk] at hstep
    obtain ⟨hrefs, cells, c, hadd, rfl⟩ := addStoredCell_eq_ok hstep
    obtain ⟨hcells, hvertices, hall⟩ := addAll_of_foldlM_addStoredCell hijk hrest
    exact ⟨(Roster.addAll_cons_of_add hadd _).trans hcells, hvertices,
      List.forall_mem_cons.mpr ⟨hrefs, hall⟩⟩

theorem storedVariable_eq_ok {name : String} {v : Variable}
    (h : storedVariable ds name = .ok v) : ds.get? name = some v := by
  unfold storedVariable at h
  split at h
  · cases h
    assumption
  · cases h

theorem checkShape_eq_ok {v : Variable} {name : String} {expected : List Nat} {u : Unit}
    (h : checkShape v name expected = .ok u) : v.values.shape = expected := by
  unfold checkShape at h
  split at h
  · assumption
  · cases h

/-- The arrays of a dataset that name entities and places hold integers. -/
def IntegralIn (ds : Dataset) (store : String) : Prop :=
  ∀ name ∈ [StoreNames.vertexIndex ⟨store⟩, StoreNames.cellIndex ⟨store⟩,
    StoreNames.cellCoordinates ⟨store⟩, StoreNames.refs ⟨store⟩, StoreNames.starts ⟨store⟩],
    ∀ v, ds.get? name = some v → v.Integral

/-- **Vertices that were read** are the rows, added one after the other. -/
theorem readVertices_eq_ok (hintegral : IntegralIn ds store)
    (h : m.readVertices ds ⟨store⟩ = .ok m') : ∃ a : VertexArrays, a.In ds store ∧
      m.vertices.addAll a.rows = .ok m'.vertices ∧ m'.cells = m.cells := by
  unfold readVertices at h
  simp only [bind_eq_ok] at h
  obtain ⟨index, hindex, points, hpoints, count, hcount, _, hshape, xs, hvector, h⟩ := h
  have hget := storedVariable_eq_ok hindex
  obtain ⟨ns, rfl, rfl⟩ := (hintegral _ (by simp) _ hget).vector_eq hcount hvector
  rw [List.zipIdx_map] at h
  exact ⟨⟨ns, points⟩, ⟨⟨index, hget, hvector⟩, storedVariable_eq_ok hpoints,
    checkShape_eq_ok hshape⟩, addAll_of_foldlM_addStoredVertex points h⟩

/-- **Cells that were read** are the rows, whose vertices are there and whose offsets passed. -/
theorem readCells_eq_ok (hintegral : IntegralIn ds store)
    (h : m.readCells ds ⟨store⟩ = .ok m') : ∃ a : CellArrays, a.In ds store ∧
      validOffsets (a.starts.map Number.whole) a.refs.length = true ∧
      m.cells.addAll a.rows = .ok m'.cells ∧ m'.vertices = m.vertices ∧
      ∀ c ∈ a.rows, ∀ v ∈ c.refs, v ∈ m.vertices.keys := by
  unfold readCells at h
  simp only [bind_eq_ok] at h
  obtain ⟨index, hindex, count, hcount, coordinates, hcoordinates, areas, hareas, refs, hrefs,
    starts, hstarts, _, hijkShape, _, hareasShape, _, hstartsShape, total, htotal, _, hcheck,
    h⟩ := h
  split at h
  · obtain ⟨_, hthrow, -⟩ := bind_eq_ok.mp h
    cases hthrow
  simp only [bind_eq_ok] at h
  obtain ⟨xs, hindexVector, offsets, hoffsets, ys, hrefsVector, h⟩ := h
  have hget := storedVariable_eq_ok hindex
  have hgetIjk := storedVariable_eq_ok hcoordinates
  have hgetRefs := storedVariable_eq_ok hrefs
  have hgetStarts := storedVariable_eq_ok hstarts
  have hshape := checkShape_eq_ok hstartsShape
  obtain ⟨ids, rfl, rfl⟩ := (hintegral _ (by simp) _ hget).vector_eq hcount hindexVector
  obtain ⟨vertices, rfl, rfl⟩ := (hintegral _ (by simp) _ hgetRefs).vector_eq htotal hrefsVector
  obtain ⟨ijk, hijk⟩ := (hintegral _ (by simp) _ hgetIjk).whole
  obtain ⟨begins, hbegins, hlength⟩ := (hintegral _ (by simp) _ hgetStarts).toList_eq hshape
  rw [hbegins, Number.mapM_toInt_whole] at hoffsets
  obtain rfl : begins = offsets := Except.ok.inj hoffsets
  rw [hbegins] at hcheck
  have hstartsVector : starts.vector = .ok (begins.map Number.whole) := by
    rw [Variable.vector, hshape, ← hbegins]
  rw [List.zip_map_left, List.zipIdx_map] at h
  exact ⟨⟨ids, ijk, areas, vertices, begins⟩, ⟨⟨index, hget, hindexVector⟩,
    ⟨coordinates, hgetIjk, checkShape_eq_ok hijkShape, hijk⟩, storedVariable_eq_ok hareas,
    checkShape_eq_ok hareasShape, ⟨refs, hgetRefs, hrefsVector⟩,
    ⟨starts, hgetStarts, hshape, hstartsVector⟩, hlength⟩, checkOffsets_eq_ok hcheck,
    addAll_of_foldlM_addStoredCell hijk h⟩

/-- Settings come without vertices and cells. -/
theorem ofInfo_eq_ok {info : Attributes} (h : ofInfo info store = .ok m) :
    m.vertices.items = [] ∧ m.cells.items = [] := by
  obtain ⟨hvertices, hcells⟩ := rosters_of_ofInfo h
  rw [hvertices, hcells]
  exact ⟨rfl, rfl⟩

/-- **What was read** is the rows of the store. -/
theorem ofDataset_exact {name : Option String}
    (hstore : name.elim (onlyMeshName ds) .ok = .ok store) (hintegral : IntegralIn ds store)
    (h : Mesh.ofDataset ds name = .ok m) : ∃ (v : VertexArrays) (c : CellArrays),
      v.In ds store ∧ c.In ds store ∧ m.Resolved ∧
      ((∀ index ∈ v.index, 0 ≤ index) → m.vertices.items = v.rows) ∧
      ((∀ index ∈ c.index, 0 ≤ index) → m.cells.items = c.rows) ∧
      ((∀ p ∈ c.starts.zip (c.starts.drop 1), Number.inInt64 (p.2 - p.1) = true) →
        m.cells.items.flatMap Cell.refs = c.refs) := by
  unfold Mesh.ofDataset at h
  simp only [hstore, bind_ok, bind_eq_ok] at h
  obtain ⟨info, -, m₁, hinfo, m₂, hvertices, m₃, hcells, _, -, _, -, h⟩ := h
  cases h
  obtain ⟨hnoVertices, hnoCells⟩ := ofInfo_eq_ok hinfo
  obtain ⟨v, hv, hvertices, hkept⟩ := readVertices_eq_ok hintegral hvertices
  obtain ⟨c, hc, hvalid, hcells, hvertexMap, hrefs⟩ := readCells_eq_ok hintegral hcells
  have hempty : m₂.cells.items = [] := by rw [hkept, hnoCells]
  have hparts : m₃.cells.items.map Cell.refs = c.rows.map Cell.refs := by
    rw [Roster.map_items_addAll Cell.refs (fun _ _ => rfl) hcells, hempty]
    rfl
  refine ⟨v, c, hv, hc, fun d hd w hw => ?_, fun hnonneg => ?_, fun hnonneg => ?_, fun hfit => ?_⟩
  · have hd' : d.refs ∈ c.rows.map Cell.refs := hparts ▸ List.mem_map_of_mem hd
    obtain ⟨row, hrow, hrowRefs⟩ := List.mem_map.mp hd'
    show w ∈ m₃.vertices.keys
    rw [hvertexMap]
    exact hrefs row hrow w (hrowRefs ▸ hw)
  · have hitems := Roster.items_addAll hvertices fun x hx =>
      hnonneg _ (v.map_index_rows ▸ List.mem_map_of_mem hx)
    rw [hnoVertices, List.nil_append] at hitems
    show m₃.vertices.items = v.rows
    rw [hvertexMap, hitems]
  · have hitems := Roster.items_addAll hcells fun x hx =>
      hnonneg _ (CellArrays.map_index_rows hc.starts_length ▸ List.mem_map_of_mem hx)
    rwa [hempty, List.nil_append] at hitems
  · show m₃.cells.items.flatMap Cell.refs = c.refs
    rw [List.flatMap_def, hparts, ← List.flatMap_def]
    exact CellArrays.flatMap_refs_rows hc.starts_length hvalid hfit

/-! ## Three vertices in a row -/

/-- A store of three vertices and three cells, with these identifiers and offsets. -/
def strip (vertexIndex starts : List Int) : Dataset :=
  let n : StoreNames := ⟨"g"⟩
  { data := [
    (n.info, .single 0 (settings (α := Float) {})),
    (n.vertexIndex, .integers n.vertexDim vertexIndex),
    (n.vertexPoints, .reals [n.vertexDim, "two"] [3, 2] #[0, 0, 1, 0, 0, 1]),
    (n.cellIndex, .integers n.cellDim [5, 6, 7]),
    (n.cellCoordinates,
      ⟨[n.cellDim, "three"], ⟨[3, 3], ([0, 0, 0, 1, 0, 0, 2, 0, 0].map Number.whole).toArray⟩, []⟩),
    (n.cellAreas, .reals [n.cellDim] [3] #[0, 0, 0]),
    (n.refs, .integers n.refDim [0, 1, 2]),
    (n.starts, .integers n.startDim starts)] }

theorem integralIn_strip (vertexIndex starts : List Int) :
    IntegralIn (strip vertexIndex starts) "g" := by
  unfold IntegralIn
  simp only [List.forall_mem_cons, List.not_mem_nil, false_implies, implies_true, and_true]
  refine ⟨fun v h => ?_, fun v h => ?_, fun v h => ?_, fun v h => ?_, fun v h => ?_⟩
  · cases h
    exact Variable.integral_integers _ _
  · cases h
    exact Variable.integral_integers _ _
  · cases h
    exact ⟨rfl, _, rfl⟩
  · cases h
    exact Variable.integral_integers _ _
  · cases h
    exact Variable.integral_integers _ _

/-- The first cell has one vertex, the second none and the third two. -/
theorem ofDataset_exact_strip : ∃ m,
    Mesh.ofDataset (strip [0, 1, 2] [0, 1, 1, 3]) (some "g") = .ok m ∧ m.Resolved ∧
      m.vertices.items.map Vertex.index = [0, 1, 2] ∧ m.cells.items.map Cell.index = [5, 6, 7] ∧
      m.cells.items.flatMap Cell.refs = [0, 1, 2] := by
  have hsome :
      (Mesh.ofDataset (strip [0, 1, 2] [0, 1, 1, 3]) (some "g")).toOption.isSome = true := by
    decide +kernel
  obtain ⟨m, hm⟩ := Option.isSome_iff_exists.mp hsome
  have hread := eq_ok_of_toOption hm
  obtain ⟨v, c, hv, hc, hresolved, hvertices, hcells, hrefs⟩ :=
    ofDataset_exact rfl (integralIn_strip _ _) hread
  have hindex : v.index = [0, 1, 2] := Variable.eq_of_vector_integers rfl hv.index
  have hcellIndex : c.index = [5, 6, 7] := Variable.eq_of_vector_integers rfl hc.index
  have hcellRefs : c.refs = [0, 1, 2] := Variable.eq_of_vector_integers rfl hc.refs
  have hstarts : c.starts = [0, 1, 1, 3] := by
    obtain ⟨w, hget, -, hvector⟩ := hc.starts
    exact Variable.eq_of_vector_integers rfl ⟨w, hget, hvector⟩
  refine ⟨m, hread, hresolved, ?_, ?_, ?_⟩
  · rw [hvertices (hindex ▸ by decide), v.map_index_rows, hindex]
  · rw [hcells (hcellIndex ▸ by decide), CellArrays.map_index_rows hc.starts_length, hcellIndex]
  · rw [hrefs (hstarts ▸ by decide), hcellRefs]

/-- **Offsets whose differences have more than 64 bits** pass the check, and two cells get the same
references. -/
theorem ofDataset_wrapped :
    let starts : List Int := [0, 6917529027641081856, -4611686018427387904, 3]
    (∀ n ∈ starts, Number.inInt64 n = true) ∧ IntegralIn (strip [0, 1, 2] starts) "g" ∧
      ∃ m, Mesh.ofDataset (strip [0, 1, 2] starts) (some "g") = .ok m ∧
        m.cells.items.map Cell.refs = [[0, 1, 2], [], [0, 1, 2]] := by
  intro starts
  have hrefs : (Mesh.ofDataset (strip [0, 1, 2] starts) (some "g")).toOption.map
      (fun m => m.cells.items.map Cell.refs) = some [[0, 1, 2], [], [0, 1, 2]] := by
    decide +kernel
  obtain ⟨m, hm, hcells⟩ := Option.map_eq_some_iff.mp hrefs
  exact ⟨by decide, integralIn_strip _ _, m, eq_ok_of_toOption hm, hcells⟩

/-- **A negative identifier** is taken for none and replaced, here by the one of a vertex that is
not in the store but that a cell names. -/
theorem ofDataset_renumbered :
    IntegralIn (strip [-1, 1, 2] [0, 1, 1, 3]) "g" ∧
      ∃ m, Mesh.ofDataset (strip [-1, 1, 2] [0, 1, 1, 3]) (some "g") = .ok m ∧
        m.vertices.items.map Vertex.index = [0, 1, 2] ∧
        m.cells.items.map Cell.refs = [[0], [], [1, 2]] := by
  have hread : (Mesh.ofDataset (strip [-1, 1, 2] [0, 1, 1, 3]) (some "g")).toOption.map
      (fun m => (m.vertices.items.map Vertex.index, m.cells.items.map Cell.refs)) =
        some ([0, 1, 2], [[0], [], [1, 2]]) := by
    decide +kernel
  obtain ⟨m, hm, hrows⟩ := Option.map_eq_some_iff.mp hread
  exact ⟨integralIn_strip _ _, m, eq_ok_of_toOption hm, congrArg Prod.fst hrows,
    congrArg Prod.snd hrows⟩

end Mesh

end Regrid

import Regrid.Proofs.Mesh.Reachable

/-!
# Products of edges

The vertices and cells of the product of two rows of edges are numbered by rows, and adding them one
after the other gives the product (`rebuilt_product`). `Tabular` says where each of them is found
and what neighbours share, `tabular_product` that a product is such a table. A mesh with sound
identifiers whose cells name its vertices can always be put together again (`rebuilt_eq`).
-/

namespace Regrid

/-! ## One after the other -/

namespace Roster

variable {ε σ : Type} [Numbered ε]

/-- **Entities with new identifiers** can be added one after the other, whatever the roster is a
part of. -/
theorem foldlM_add (put : Roster ε → σ) {step : σ → ε → Except Error σ} : ∀ (xs : List ε)
    {r : Roster ε}, (∀ x ∈ xs, ∀ r : Roster ε, Numbered.index x ∉ r.keys →
      step (put r) x = .ok (put (r.extend [x]))) → (r.keys ++ xs.map Numbered.index).Nodup →
    xs.foldlM step (put r) = .ok (put (r.extend xs))
  | [], r, _, _ => by
    rw [extend_nil]
    rfl
  | x :: xs, r, hstep, hnodup => by
    have hnew : Numbered.index x ∉ r.keys := fun hmem =>
      (List.nodup_append.mp hnodup).2.2 _ hmem _ List.mem_cons_self rfl
    have hrest : ((r.extend [x]).keys ++ xs.map Numbered.index).Nodup := by
      simpa [keys, extend] using hnodup
    rw [List.foldlM_cons, extend_cons]
    exact (bind_of_ok (hstep x List.mem_cons_self r hnew) _).trans
      (foldlM_add put xs (fun y hy => hstep y (List.mem_cons_of_mem x hy)) hrest)

/-- The greatest of the numbers from zero on is the last one. -/
theorem foldl_max_range (n : Nat) :
    (List.range n).foldl (fun (top : Int) i => max top (i : Nat)) (-1) = n - 1 := by
  induction n with
  | zero => rfl
  | succ n ih =>
    rw [List.range_succ, List.foldl_append, ih, List.foldl_cons, List.foldl_nil]
    omega

/-- Of entities that are numbered from zero on, the greatest identifier is known. -/
theorem recount_of_keys {r : Roster ε} {n : Nat} (hkeys : r.keys = (List.range n).map Nat.cast)
    (htop : r.top = r.items.length - 1) : r.recount = r := by
  have hlength : r.items.length = n := by simpa [keys] using congrArg List.length hkeys
  have hfold : r.items.foldl (fun n x => max n (Numbered.index x)) (-1) = r.top := by
    calc r.items.foldl (fun n x => max n (Numbered.index x)) (-1)
        = r.keys.foldl max (-1) := List.foldl_map.symm
      _ = (List.range n).foldl (fun (top : Int) i => max top (i : Nat)) (-1) := by
        rw [hkeys, List.foldl_map]
      _ = r.top := by rw [foldl_max_range, htop, hlength]
  unfold recount
  rw [hfold]

theorem get_of_mem {r : Roster ε} (h : r.Sound) {x : ε} (hx : x ∈ r.items) :
    r.get (Numbered.index x) = .ok x := by
  rw [get, get?_of_mem h hx]

end Roster

namespace Mesh

variable {α : Type}

/-- The mesh put together again: its vertices and then its cells are added one after the other to an
empty one. -/
def rebuilt (m : Mesh α) : Except Error (Mesh α) := do
  let whole ← m.vertices.items.foldlM (fun m v => return (← m.addVertex v).1) m.clear
  m.cells.items.foldlM (fun m c => return (← m.addCell c).1) whole

/-- **A mesh with sound identifiers** whose cells name its vertices can be put together again. -/
theorem rebuilt_eq {m : Mesh α} (hsound : m.Sound) (hresolved : m.Resolved) : m.rebuilt =
    .ok { m with vertices := m.vertices.recount, cells := m.cells.recount } := by
  let withVertices (vertices : Roster (Vertex α)) : Mesh α := { m.clear with vertices }
  let withCells (cells : Roster (Cell α)) : Mesh α :=
    { m with vertices := m.vertices.recount, cells }
  have hvertex : ∀ v ∈ m.vertices.items, ∀ r : Roster (Vertex α), Numbered.index v ∉ r.keys →
      (do return (← (withVertices r).addVertex v).1) = .ok (withVertices (r.extend [v])) := by
    intro v hv r hnew
    simp only [addVertex]
    rw [Roster.add_eq (hsound.vertices.nonneg v hv) hnew]
    rfl
  have hcell : ∀ c ∈ m.cells.items, ∀ r : Roster (Cell α), Numbered.index c ∉ r.keys →
      (do return (← (withCells r).addCell c).1) = .ok (withCells (r.extend [c])) := by
    intro c hc r hnew
    have hnone : (withCells r).missingVertex? (c.refs.map .whole) = none :=
      missingVertex?_eq_none (hresolved c hc)
    simp only [addCell, checkVertices]
    rw [hnone, Roster.add_eq (hsound.cells.nonneg c hc) hnew]
    rfl
  have hvertices : m.vertices.items.foldlM (fun m v => return (← m.addVertex v).1) m.clear =
      .ok (withVertices m.vertices.recount) :=
    Roster.foldlM_add withVertices m.vertices.items (r := m.vertices.clear) hvertex
      hsound.vertices.nodup
  have hcells : m.cells.items.foldlM (fun m c => return (← m.addCell c).1)
      (withVertices m.vertices.recount) = .ok (withCells m.cells.recount) :=
    Roster.foldlM_add withCells m.cells.items (r := m.cells.clear) hcell hsound.cells.nodup
  unfold rebuilt
  rw [hvertices, bind_ok, hcells]

theorem rebuilt_eq_self {m : Mesh α} (hsound : m.Sound) (hresolved : m.Resolved)
    (hvertices : m.vertices.recount = m.vertices) (hcells : m.cells.recount = m.cells) :
    m.rebuilt = .ok m := by
  rw [rebuilt_eq hsound hresolved, hvertices, hcells]

/-! ## Rows and columns -/

/-- The number of the vertex where edge `i` of so many columns meets edge `j` of the rows. -/
def corner (columns j i : Nat) : Int := (j * (columns + 1) + i : Nat)

/-- The vertices that two cells share are these two. -/
def Share (m : Mesh α) (a b v w : Int) : Prop :=
  v ≠ w ∧ ∃ c d, m.cells.get a = .ok c ∧ m.cells.get b = .ok d ∧
    ∀ u, u ∈ c.refs ∧ u ∈ d.refs ↔ u = v ∨ u = w

/-- **A table of cells** between the edges `x 0`, …, `x columns` and `y 0`, …, `y rows`: vertices
and cells are numbered by rows, a cell turns counter-clockwise from its south-western corner, and
cells that lie side by side share the ends of the edge between them. -/
structure Tabular (m : Mesh α) (columns rows : Nat) (x y : Nat → α) (area : Nat → Nat → α) :
    Prop where
  vertexKeys : m.vertices.keys = (List.range ((rows + 1) * (columns + 1))).map Nat.cast
  vertex : ∀ j ≤ rows, ∀ i ≤ columns,
    m.vertices.get (corner columns j i) = .ok ⟨x i, y j, corner columns j i⟩
  cellKeys : m.cells.keys = (List.range (rows * columns)).map Nat.cast
  cell : ∀ j < rows, ∀ i < columns, m.cells.get (j * columns + i : Nat) = .ok
    { refs := [corner columns j i, corner columns j (i + 1), corner columns (j + 1) (i + 1),
        corner columns (j + 1) i]
      index := (j * columns + i : Nat)
      i := i
      j := j
      nativeArea := area j i }
  eastward : ∀ j < rows, ∀ i, i + 1 < columns →
    m.Share (j * columns + i : Nat) (j * columns + (i + 1) : Nat) (corner columns j (i + 1))
      (corner columns (j + 1) (i + 1))
  northward : ∀ j, j + 1 < rows → ∀ i < columns,
    m.Share (j * columns + i : Nat) ((j + 1) * columns + i : Nat) (corner columns (j + 1) i)
      (corner columns (j + 1) (i + 1))

/-- The edges `x 0`, …, `x n`. -/
def edges (n : Nat) (x : Nat → α) : List α := (List.range (n + 1)).map x

theorem length_edges (n : Nat) (x : Nat → α) : (edges n x).length = n + 1 := by simp [edges]

/-- The next row of corners. -/
theorem corner_succ (columns j i : Nat) :
    corner columns (j + 1) i = corner columns j i + (columns + 1) := by
  simp only [corner, Nat.succ_mul]
  omega

theorem corner_succ_right (columns j i : Nat) :
    corner columns j (i + 1) = corner columns j i + 1 := rfl

theorem productCell_eq (columns : Nat) (area : Nat → Nat → α) (j i : Nat) :
    productCell columns area j i =
      { refs := [corner columns j i, corner columns j (i + 1), corner columns (j + 1) (i + 1),
          corner columns (j + 1) i]
        index := (j * columns + i : Nat)
        i := i
        j := j
        nativeArea := area j i } := by
  have hnortheast : ((j * (columns + 1) + i + columns + 2 : Nat) : Int) =
      corner columns (j + 1) (i + 1) := by
    rw [corner_succ, corner]
    omega
  have hnorthwest : ((j * (columns + 1) + i + columns + 1 : Nat) : Int) =
      corner columns (j + 1) i := by
    rw [corner_succ, corner]
    omega
  unfold productCell
  rw [← hnortheast, ← hnorthwest]
  rfl

theorem zipIdx_edges (n : Nat) (x : Nat → α) :
    (edges n x).zipIdx = (List.range (n + 1)).map fun i => (x i, i) := by
  apply List.ext_getElem
  · simp [edges]
  · simp [edges]

theorem mem_productVertices {columns rows : Nat} {x y : Nat → α} {v : Vertex α} :
    v ∈ productVertices (edges columns x) (edges rows y) ↔
      ∃ j ≤ rows, ∃ i ≤ columns, v = ⟨x i, y j, corner columns j i⟩ := by
  simp only [productVertices, zipIdx_edges, length_edges, List.mem_flatMap, List.mem_map,
    List.mem_range]
  constructor
  · rintro ⟨-, ⟨j, hj, rfl⟩, -, ⟨i, hi, rfl⟩, rfl⟩
    exact ⟨j, Nat.le_of_lt_succ hj, i, Nat.le_of_lt_succ hi, rfl⟩
  · rintro ⟨j, hj, i, hi, rfl⟩
    exact ⟨_, ⟨j, Nat.lt_succ_of_le hj, rfl⟩, _, ⟨i, Nat.lt_succ_of_le hi, rfl⟩, rfl⟩

theorem mem_productCells {columns rows : Nat} {area : Nat → Nat → α} {c : Cell α} :
    c ∈ productCells columns rows area ↔
      ∃ j < rows, ∃ i < columns, c = productCell columns area j i := by
  simp only [productCells, List.mem_flatMap, List.mem_map, List.mem_range, eq_comm (a := c)]

section Product

variable (settings : Mesh α) (columns rows : Nat) (x y : Nat → α) (area : Nat → Nat → α)

/-- The vertices of a product are those of the crossings. -/
theorem get_vertex_product {j i : Nat} (hj : j ≤ rows) (hi : i ≤ columns) :
    (product settings (edges columns x) (edges rows y) area).vertices.get (corner columns j i) =
      .ok ⟨x i, y j, corner columns j i⟩ :=
  Roster.get_of_mem (sound_product ..).vertices (x := ⟨x i, y j, corner columns j i⟩)
    (mem_productVertices.mpr ⟨j, hj, i, hi, rfl⟩)

theorem cells_product : (product settings (edges columns x) (edges rows y) area).cells.items =
    productCells columns rows area := by
  simp [product, edges]

theorem get_cell_product {j i : Nat} (hj : j < rows) (hi : i < columns) :
    (product settings (edges columns x) (edges rows y) area).cells.get (j * columns + i : Nat) =
      .ok (productCell columns area j i) :=
  Roster.get_of_mem (sound_product ..).cells (x := productCell columns area j i) (by
    rw [cells_product]
    exact mem_productCells.mpr ⟨j, hj, i, hi, rfl⟩)

theorem resolved_product : (product settings (edges columns x) (edges rows y) area).Resolved := by
  intro c hc v hv
  rw [cells_product] at hc
  obtain ⟨j, hj, i, hi, rfl⟩ := mem_productCells.mp hc
  have hcorner : ∀ {j i : Nat}, j ≤ rows → i ≤ columns → corner columns j i ∈
      (product settings (edges columns x) (edges rows y) area).vertices.keys := fun hj hi =>
    List.mem_map.mpr ⟨_, mem_productVertices.mpr ⟨_, hj, _, hi, rfl⟩, rfl⟩
  simp only [productCell_eq, List.mem_cons, List.not_mem_nil, or_false] at hv
  obtain rfl | rfl | rfl | rfl := hv
  · exact hcorner hj.le hi.le
  · exact hcorner hj.le hi
  · exact hcorner hj hi
  · exact hcorner hj hi.le

/-- **A product can be put together** from its vertices and its cells. -/
theorem rebuilt_product : (product settings (edges columns x) (edges rows y) area).rebuilt =
    .ok (product settings (edges columns x) (edges rows y) area) :=
  rebuilt_eq_self (sound_product ..) (resolved_product settings columns rows x y area)
    (Roster.recount_of_keys (keys_productVertices ..) rfl)
    (Roster.recount_of_keys (keys_productCells ..) rfl)

/-- **A product is a table.** -/
theorem tabular_product :
    (product settings (edges columns x) (edges rows y) area).Tabular columns rows x y area where
  vertexKeys := by
    rw [← length_edges columns x, ← length_edges rows y]
    exact keys_productVertices ..
  vertex j hj i hi := get_vertex_product _ _ _ _ _ _ hj hi
  cellKeys := by
    rw [Roster.keys, cells_product]
    exact keys_productCells ..
  cell j hj i hi := by
    rw [get_cell_product _ _ _ _ _ _ hj hi, productCell_eq]
  eastward j hj i hi := by
    have hdistinct : corner columns j (i + 1) ≠ corner columns (j + 1) (i + 1) := by
      rw [corner_succ]
      omega
    refine ⟨hdistinct, _, _, get_cell_product _ _ _ _ _ _ hj (by omega),
      get_cell_product _ _ _ _ _ _ hj hi, fun u => ?_⟩
    simp only [productCell_eq, List.mem_cons, List.not_mem_nil, or_false, corner_succ,
      corner_succ_right]
    omega
  northward j hj i hi := by
    have hdistinct : corner columns (j + 1) i ≠ corner columns (j + 1) (i + 1) := by
      rw [corner_succ_right]
      omega
    refine ⟨hdistinct, _, _, get_cell_product _ _ _ _ _ _ (by omega) hi,
      get_cell_product _ _ _ _ _ _ hj hi, fun u => ?_⟩
    simp only [productCell_eq, List.mem_cons, List.not_mem_nil, or_false, corner_succ,
      corner_succ_right]
    omega

/-- The areas of the cells stand in the order of the cells. -/
theorem nativeAreas_product :
    (product settings (edges columns x) (edges rows y) area).nativeAreas =
      (List.range rows).flatMap fun j => (List.range columns).map (area j) := by
  have hkeys : ((productCells columns rows area).map Cell.index).Pairwise (· ≤ ·) := by
    rw [keys_productCells, List.pairwise_map]
    exact List.pairwise_le_range.imp Int.ofNat_le.mpr
  have hordered : (productCells columns rows area).Pairwise
      fun c d => Numbered.index c ≤ Numbered.index d := List.pairwise_map.mp hkeys
  unfold nativeAreas
  rw [Roster.sorted_eq_items (by rwa [cells_product]), cells_product, productCells,
    List.map_flatMap]
  simp only [List.map_map]
  rfl

end Product

end Mesh

end Regrid

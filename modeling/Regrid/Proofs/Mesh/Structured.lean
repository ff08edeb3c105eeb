import Regrid.Proofs.LatLon.Centres
import Regrid.Proofs.Mesh.Area
import Regrid.Proofs.Mesh.Product
import Regrid.Proofs.Remap.Request

/-!
# Meshes of rectangles

If a map of the plane takes the crossings of edges to those of other edges, and the cells of a
product have the areas of the rectangles between these (`Measures`), then the area of every cell is
that of its image, and all of them add up to the rectangle between the outermost edges
(`Measures.surveyed`). For edges in a plane (`create_xy_grid`) the map is the identity, for those of
a global grid (`create_lonlat_grid`) it is the equal-area projection, which takes a latitude to its
sine. `structured_laws` puts this together.
-/

namespace Regrid.Mesh

variable {α : Type}

/-! ## Areas -/

/-- The corners of a cell are the crossings around it. -/
theorem corners_product (settings : Mesh α) (columns rows : Nat) (x y : Nat → α)
    (area : Nat → Nat → α) {j i : Nat} (hj : j < rows) (hi : i < columns) :
    (product settings (edges columns x) (edges rows y) area).corners
        (productCell columns area j i) =
      .ok [(x i, y j), (x (i + 1), y j), (x (i + 1), y (j + 1)), (x i, y (j + 1))] := by
  unfold corners
  simp only [productCell_eq, List.mapM_cons, List.mapM_nil,
    get_vertex_product _ _ _ _ _ _ hj.le hi.le, get_vertex_product _ _ _ _ _ _ hj.le hi,
    get_vertex_product _ _ _ _ _ _ hj hi, get_vertex_product _ _ _ _ _ _ hj hi.le]
  rfl

/-- The signed area of a cell whose corners are known. -/
theorem area_of_corners [Trigonometry α] {m : Mesh α} {c : Cell α} {ps : List (α × α)}
    (hrefs : c.refs ≠ []) (hcorners : m.corners c = .ok ps) :
    m.area c none true = .ok (polygonArea ps) := by
  unfold area
  rw [if_neg (by simpa using hrefs), hcorners]
  rfl

/-- So is its area in a projection. -/
theorem area_of_projected [Trigonometry α] {m : Mesh α} {c : Cell α} {ps : List (α × α)}
    (hrefs : c.refs ≠ []) (hcorners : m.corners c = .ok ps) {s : String} {p : Projection α}
    (hp : Projection.ofText s = .ok p) :
    m.area c (some s) true = .ok (polygonArea (ps.map p.apply)) := by
  unfold area
  rw [if_neg (by simpa using hrefs), hcorners, bind_ok]
  simp only [hp]
  rfl

theorem polygonArea_rectangle (x₀ x₁ y₀ y₁ : ℝ) :
    polygonArea [(x₀, y₀), (x₁, y₀), (x₁, y₁), (x₀, y₁)] = (x₁ - x₀) * (y₁ - y₀) := by
  have hwalk := polygonArea_concat [(x₀, y₀), (x₁, y₀), (x₁, y₁)] (x₀, y₁)
  simp only [List.cons_append, List.nil_append, swept, crossProduct_real] at hwalk
  rw [hwalk]
  ring

/-- **A map of the plane under which the areas of cells are those of rectangles**: the crossings of
the edges `x` and `y` go to those of the increasing edges `u` and `v`. -/
structure Measures (f : ℝ × ℝ → ℝ × ℝ) (columns rows : Nat) (x y u v : Nat → ℝ)
    (area : Nat → Nat → ℝ) : Prop where
  image : ∀ j ≤ rows, ∀ i ≤ columns, f (x i, y j) = (u i, v j)
  eastward : ∀ i < columns, u i < u (i + 1)
  northward : ∀ j < rows, v j < v (j + 1)
  area : ∀ j < rows, ∀ i < columns, area j i = (u (i + 1) - u i) * (v (j + 1) - v j)

/-- **A table whose areas are known**: it is what adding its vertices and cells one after the other
gives, the area of a cell is the signed one of its image under a map of the plane, and positive, and
the areas have this sum. -/
structure Surveyed (m : Mesh ℝ) (f : ℝ × ℝ → ℝ × ℝ) (columns rows : Nat) (x y : Nat → ℝ)
    (area : Nat → Nat → ℝ) (total : ℝ) : Prop where
  rebuilt : m.rebuilt = .ok m
  tabular : m.Tabular columns rows x y area
  cell : ∀ c ∈ m.cells.items, ∃ ps, m.corners c = .ok ps ∧
    polygonArea (ps.map f) = c.nativeArea ∧ 0 < c.nativeArea
  total : m.nativeAreas.sum = total

/-- A cell with an area has corners. -/
theorem refs_ne_nil {m : Mesh ℝ} {c : Cell ℝ} {ps : List (ℝ × ℝ)} {f : ℝ × ℝ → ℝ × ℝ}
    (hps : m.corners c = .ok ps) (harea : polygonArea (ps.map f) = c.nativeArea)
    (hpos : 0 < c.nativeArea) : c.refs ≠ [] := by
  intro hrefs
  rw [corners, hrefs] at hps
  cases hps
  exact hpos.ne (polygonArea_nil.symm.trans harea)

namespace Measures

variable {f : ℝ × ℝ → ℝ × ℝ} {columns rows : Nat} {x y u v : Nat → ℝ} {area : Nat → Nat → ℝ}
  (h : Measures f columns rows x y u v area) (settings : Mesh ℝ)
include h

/-- The area of a cell is the signed one of its image, and positive. -/
theorem cell : ∀ c ∈ (product settings (edges columns x) (edges rows y) area).cells.items,
    ∃ ps, (product settings (edges columns x) (edges rows y) area).corners c = .ok ps ∧
      polygonArea (ps.map f) = c.nativeArea ∧ 0 < c.nativeArea := by
  intro c hc
  rw [cells_product] at hc
  obtain ⟨j, hj, i, hi, rfl⟩ := mem_productCells.mp hc
  refine ⟨_, corners_product settings columns rows x y area hj hi, ?_, ?_⟩
  · simp only [List.map_cons, List.map_nil, h.image j hj.le i hi.le, h.image j hj.le (i + 1) hi,
      h.image (j + 1) hj (i + 1) hi, h.image (j + 1) hj i hi.le]
    rw [polygonArea_rectangle]
    exact (h.area j hj i hi).symm
  · exact (mul_pos (sub_pos.mpr (h.eastward i hi)) (sub_pos.mpr (h.northward j hj))).trans_eq
      (h.area j hj i hi).symm

/-- The areas add up to the rectangle between the outermost edges. -/
theorem sum_nativeAreas :
    (product settings (edges columns x) (edges rows y) area).nativeAreas.sum =
      (u columns - u 0) * (v rows - v 0) := by
  have hrow : ∀ j < rows, ((List.range columns).map (area j)).sum =
      (u columns - u 0) * (v (j + 1) - v j) := by
    intro j hj
    calc ((List.range columns).map (area j)).sum
        = ∑ i ∈ Finset.range columns, (u (i + 1) - u i) * (v (j + 1) - v j) := by
          rw [sum_map_range]
          exact Finset.sum_congr rfl fun i hi => h.area j hj i (Finset.mem_range.mp hi)
      _ = (u columns - u 0) * (v (j + 1) - v j) := by
          rw [← Finset.sum_mul, Finset.sum_range_sub]
  calc (product settings (edges columns x) (edges rows y) area).nativeAreas.sum
      = ((List.range rows).map fun j => ((List.range columns).map (area j)).sum).sum := by
        rw [nativeAreas_product, List.flatMap_def, List.sum_flatten, List.map_map]
        rfl
    _ = ∑ j ∈ Finset.range rows, (u columns - u 0) * (v (j + 1) - v j) := by
        rw [sum_map_range]
        exact Finset.sum_congr rfl fun j hj => hrow j (Finset.mem_range.mp hj)
    _ = (u columns - u 0) * (v rows - v 0) := by
        rw [← Finset.mul_sum, Finset.sum_range_sub]

/-- **Products are surveyed** by such a map. -/
theorem surveyed : (product settings (edges columns x) (edges rows y) area).Surveyed f columns rows
    x y area ((u columns - u 0) * (v rows - v 0)) :=
  ⟨rebuilt_product .., tabular_product .., h.cell settings, h.sum_nativeAreas settings⟩

end Measures

/-! ## Edges in a plane -/

/-- Edges that stand in an array. -/
theorem toList_eq_edges {xs : Array ℝ} {n : Nat} (h : xs.size = n + 1) :
    xs.toList = edges n fun i => xs.getD i 0 := by
  rw [edges, ← h, map_range_getD]

theorem increasing_eq (xs : List ℝ) : increasing xs = !LatLon.hasStep xs := by
  unfold increasing LatLon.hasStep
  rw [List.not_any_eq_all_not]

section Plane

variable {xs ys : Array ℝ} {columns rows : Nat}

theorem increasing_toList (hsize : xs.size = columns + 1)
    (hxs : ∀ i < columns, xs.getD i 0 < xs.getD (i + 1) 0) : increasing xs.toList = true := by
  rw [increasing_eq, LatLon.hasStep_iff.mpr, Bool.not_false]
  intro i hi
  rw [Array.length_toList, hsize] at hi
  rw [LatLon.getD_toList, LatLon.getD_toList]
  exact hxs i (by omega)

variable (hcolumns : xs.size = columns + 1) (hrows : ys.size = rows + 1)
  (hxs : ∀ i < columns, xs.getD i 0 < xs.getD (i + 1) 0)
  (hys : ∀ j < rows, ys.getD j 0 < ys.getD (j + 1) 0)
include hxs hys

/-- The areas of rectangles are those of the rectangles between their edges. -/
theorem measures_plane : Measures id columns rows (fun i => xs.getD i 0) (fun j => ys.getD j 0)
    (fun i => xs.getD i 0) (fun j => ys.getD j 0) fun j i => gap xs i * gap ys j where
  image _ _ _ _ := rfl
  eastward := hxs
  northward := hys
  area _ _ _ _ := rfl

include hcolumns hrows

/-- **Increasing edges** are accepted. -/
theorem rectilinear_eq (name : String) (projection : Option String) :
    rectilinear name projection xs ys = .ok (product { name, projection }
      (edges columns fun i => xs.getD i 0) (edges rows fun j => ys.getD j 0)
      fun j i => gap xs i * gap ys j) := by
  unfold rectilinear
  rw [increasing_toList hcolumns hxs, increasing_toList hrows hys, toList_eq_edges hcolumns,
    toList_eq_edges hrows]
  rfl

end Plane

/-! ## Edges on a sphere -/

section Sphere

variable {g : LatLon ℝ}

theorem ofLatLon_eq (g : LatLon ℝ) (name : String) : ofLatLon g name =
    product { name, kind := .lonLat, coordinates := .lonLat }
      (edges g.columns fun i => g.longitudeEdges.getD i 0)
      (edges g.rows fun j => g.latitudeEdges.getD j 0) fun j _ => g.rowAreas.getD j 0 := by
  have hcolumns : g.longitudeEdges.size = g.columns + 1 := by simp [LatLon.longitudeEdges]
  rw [← toList_eq_edges hcolumns, ← toList_eq_edges (LatLon.size_latitudeEdges g)]
  rfl

theorem radians_real (degrees : ℝ) : Projection.radians degrees = degrees * (Real.pi / 180) := by
  unfold Projection.radians Trigonometry.degree
  rw [Trigonometry.pi_real, Scalar.ofNat_real, Nat.cast_ofNat]

/-- The sines of the edges are those of latitudes. -/
theorem sin_latitude {j : Nat} (hj : j ≤ g.rows) :
    Real.sin (Projection.radians (g.latitudeEdges.getD j 0)) =
      (LatLon.sineEdges g.rows g.spacing).getD j 0 := by
  have hangle : Projection.radians (g.latitudeEdges.getD j 0) =
      Real.arcsin ((LatLon.sineEdges g.rows g.spacing).getD j 0) := by
    have hpi := Real.pi_ne_zero
    rw [radians_real, LatLon.getD_latitudeEdges_eq_arcsin hj]
    field_simp
  rw [hangle, LatLon.sineEdges_eq_sin hj]
  exact Real.sin_arcsin (Real.neg_one_le_sin _) (Real.sin_le_one _)

theorem getD_rowAreas {j : Nat} (hj : j < g.rows) :
    g.rowAreas.getD j 0 = g.lattice.rowArea Trigonometry.turn g.radius j :=
  getD_map_range hj _ 0

theorem rowArea_lattice (g : LatLon ℝ) (j : Nat) :
    g.lattice.rowArea Trigonometry.turn g.radius j =
      2 * Real.pi / g.columns * ((LatLon.sineEdges g.rows g.spacing).getD (j + 1) 0 -
        (LatLon.sineEdges g.rows g.spacing).getD j 0) * (g.radius * g.radius) := by
  unfold Lattice.rowArea Trigonometry.turn
  rw [Scalar.ofNat_real, Scalar.ofNat_real, Nat.cast_ofNat]
  rfl

/-- How far east a column edge lies in the equal-area projection. -/
noncomputable def easting (g : LatLon ℝ) (i : Nat) : ℝ :=
  g.radius * Projection.radians (g.longitudeEdges.getD i 0)

/-- How far north a row edge lies. -/
noncomputable def northing (g : LatLon ℝ) (j : Nat) : ℝ :=
  g.radius * (LatLon.sineEdges g.rows g.spacing).getD j 0

theorem easting_eq {i : Nat} (hi : i ≤ g.columns) : easting g i =
    g.radius * (-Real.pi + (g.offset + i) * (2 * Real.pi / g.columns)) := by
  rw [easting, radians_real, LatLon.getD_longitudeEdges hi]
  ring

variable (h : g.Accepted)
include h

/-- **The areas on the sphere** are those of the rectangles in the equal-area projection. -/
theorem measures_equalArea : Measures (Projection.equalArea g.radius).apply g.columns g.rows
    (fun i => g.longitudeEdges.getD i 0) (fun j => g.latitudeEdges.getD j 0) (easting g)
    (northing g) fun j _ => g.rowAreas.getD j 0 where
  image j hj i _ := Prod.ext rfl (congrArg (g.radius * ·) (sin_latitude hj))
  eastward i hi := by
    have hcolumns : (0 : ℝ) < g.columns := Nat.cast_pos.mpr h.columns_pos
    have hwidth : 0 < 2 * Real.pi / g.columns := by
      have := Real.pi_pos
      positivity
    have hradius : (0 : ℝ) < g.radius := h.radius_pos
    rw [easting_eq hi.le, easting_eq hi]
    push_cast
    gcongr
    linarith
  northward j hj :=
    mul_lt_mul_of_pos_left (LatLon.hasStep_sineEdges_iff.mp h.follow j hj) h.radius_pos
  area j hj i hi := by
    rw [getD_rowAreas hj, rowArea_lattice, easting_eq hi.le, easting_eq hi, northing, northing]
    push_cast
    ring

/-- From the date line around the sphere, and from pole to pole. -/
theorem extent_equalArea :
    (easting g g.columns - easting g 0) * (northing g g.rows - northing g 0) =
      4 * Real.pi * g.radius ^ 2 := by
  have hcolumns : (g.columns : ℝ) ≠ 0 := Nat.cast_ne_zero.mpr h.columns_pos.ne'
  rw [easting_eq le_rfl, easting_eq (Nat.zero_le _), northing, northing,
    LatLon.getD_sineEdges le_rfl, LatLon.getD_sineEdges (Nat.zero_le _), if_neg h.rows_pos.ne',
    if_pos rfl, if_pos rfl]
  field_simp
  push_cast
  ring

end Sphere

/-! ## Flat numbers -/

/-- The cell of a number is the one in this row and column. -/
def Places (m : Mesh α) (n j i : Nat) : Prop := ∃ c, m.cells.get n = .ok c ∧ c.j = j ∧ c.i = i

section Flat

variable [Scalar α] {m : Mesh α} {columns rows : Nat} {x y : Nat → α} {area : Nat → Nat → α}
  {r : Remap α}

omit [Scalar α] in
theorem Tabular.places (h : m.Tabular columns rows x y area) {j i : Nat} (hj : j < rows)
    (hi : i < columns) : m.Places (j * columns + i) j i :=
  ⟨_, h.cell j hj i hi, rfl, rfl⟩

/-- The target of an overlap is the number of the cell in the row and the column that overlap. -/
def NamesTargets (m : Mesh α) (r : Remap α) : Prop :=
  ∀ o ∈ r.overlaps none, ∃ b ∈ r.bandOverlaps, ∃ c ∈ r.columnOverlaps,
    o.amount = b.amount * c.amount ∧ m.Places o.target b.target c.target

/-- So is the source, if it is the number of a cell. -/
def NamesSources (m : Mesh α) (r : Remap α) : Prop :=
  ∀ o ∈ r.overlaps none, o.source < r.source.size → ∃ b ∈ r.bandOverlaps, ∃ c ∈ r.columnOverlaps,
    o.amount = b.amount * c.amount ∧ m.Places o.source b.source c.source

theorem Tabular.namesTargets (h : m.Tabular r.target.columns r.target.rows x y area)
    (hrows : 0 < r.target.rows) : m.NamesTargets r := by
  intro o ho
  obtain ⟨b, hb, c, hc, rfl⟩ := Remap.exists_of_mem_overlaps ho
  exact ⟨b, hb, c, hc, rfl, h.places (Remap.target_of_mem_bandOverlaps hrows hb)
    (Remap.target_of_mem_columnOverlaps hc)⟩

theorem Tabular.namesSources (h : m.Tabular r.source.columns r.source.rows x y area)
    (hcolumns : 0 < r.source.columns) : m.NamesSources r := by
  intro o ho hsource
  obtain ⟨b, hb, c, hc, rfl⟩ := Remap.exists_of_mem_overlaps ho
  have hcolumn := Remap.source_of_mem_columnOverlaps hcolumns hc
  refine ⟨b, hb, c, hc, rfl, h.places ?_ hcolumn⟩
  rw [← Lattice.div_cell hcolumn b.source]
  exact Nat.div_lt_of_lt_mul (hsource.trans_eq (Nat.mul_comm ..))

end Flat

/-- The areas of the cells are the flat vector of the areas of the grid. -/
theorem nativeAreas_ofLatLon (g : LatLon ℝ) (name : String) :
    (ofLatLon g name).nativeAreas = g.cellAreas.toList := by
  rw [ofLatLon_eq, nativeAreas_product]
  unfold LatLon.cellAreas Lattice.cellAreas
  rw [g.rows_lattice]
  refine List.flatMap_congr fun j hj => ?_
  rw [List.map_const', List.length_range, getD_rowAreas (List.mem_range.mp hj)]
  rfl

theorem ofText_equalArea : Projection.ofText "+proj=cea +R=6371000" =
    .ok (Projection.equalArea (6371000 : ℝ)) := by
  simp [Projection.ofText, Projection.known, Projection.sphereRadius]

/-! ## Structured meshes -/

/-- **Meshes of edges.** From increasing edges in a plane a mesh is always made. It is a table of
cells whose areas are those of their polygons and add up to the area between the outermost edges.

The mesh of an accepted grid is such a table too. Its cells have the numbers by which the flat
vector of areas and the overlaps with other grids name them. Their areas are those of their polygons
in the equal-area projection and add up to the area of the sphere. -/
theorem structured_laws :
    (∀ (name : String) (projection : Option String) (xs ys : Array ℝ),
      2 ≤ xs.size → 2 ≤ ys.size →
      (∀ i, i + 1 < xs.size → xs.getD i 0 < xs.getD (i + 1) 0) →
      (∀ j, j + 1 < ys.size → ys.getD j 0 < ys.getD (j + 1) 0) →
      ∃ m : Mesh ℝ, rectilinear name projection xs ys = .ok m ∧
        m.Surveyed id (xs.size - 1) (ys.size - 1) (fun i => xs.getD i 0) (fun j => ys.getD j 0)
          (fun j i => gap xs i * gap ys j)
          ((xs.getD (xs.size - 1) 0 - xs.getD 0 0) * (ys.getD (ys.size - 1) 0 - ys.getD 0 0)) ∧
        ∀ c ∈ m.cells.items, m.area c none true = .ok c.nativeArea) ∧
    ∀ (columns rows : Int) (offset radius : ℝ) (spacing : Option ℝ) (g : LatLon ℝ) (name : String),
      LatLon.ofCounts columns rows offset spacing radius = .ok g →
      (ofLatLon g name).Surveyed (Projection.equalArea g.radius).apply g.columns g.rows
        (fun i => g.longitudeEdges.getD i 0) (fun j => g.latitudeEdges.getD j 0)
        (fun j _ => g.rowAreas.getD j 0) (4 * Real.pi * g.radius ^ 2) ∧
      (g.radius = 6371000 → ∀ c ∈ (ofLatLon g name).cells.items,
        (ofLatLon g name).area c (some "+proj=cea +R=6371000") true = .ok c.nativeArea) ∧
      (ofLatLon g name).nativeAreas = g.cellAreas.toList ∧
      ∀ other : Lattice ℝ, (ofLatLon g name).NamesTargets ⟨other, g.lattice⟩ ∧
        (ofLatLon g name).NamesSources ⟨g.lattice, other⟩ := by
  refine ⟨fun name projection xs ys hxs hys hx hy => ?_,
    fun columns rows offset radius spacing g name haccepted => ?_⟩
  · have hcolumns : xs.size = xs.size - 1 + 1 := by omega
    have hrows : ys.size = ys.size - 1 + 1 := by omega
    have hx' : ∀ i < xs.size - 1, xs.getD i 0 < xs.getD (i + 1) 0 := fun i hi => hx i (by omega)
    have hy' : ∀ j < ys.size - 1, ys.getD j 0 < ys.getD (j + 1) 0 := fun j hj => hy j (by omega)
    have hsurvey := (measures_plane hx' hy').surveyed { name, projection }
    refine ⟨_, rectilinear_eq hcolumns hrows hx' hy' name projection, hsurvey, fun c hc => ?_⟩
    obtain ⟨ps, hps, harea, hpos⟩ := hsurvey.cell c hc
    rw [area_of_corners (refs_ne_nil hps harea hpos) hps, ← harea, List.map_id]
  · have h := LatLon.accepted_of_ofCounts haccepted
    have hsurvey := (measures_equalArea h).surveyed
      { name, kind := .lonLat, coordinates := .lonLat }
    rw [extent_equalArea h, ← ofLatLon_eq] at hsurvey
    have htable := hsurvey.tabular
    rw [← g.rows_lattice] at htable
    refine ⟨hsurvey, fun hradius c hc => ?_, nativeAreas_ofLatLon g name, fun other =>
      ⟨Tabular.namesTargets (r := ⟨other, g.lattice⟩) htable (g.rows_lattice.symm ▸ h.rows_pos),
        Tabular.namesSources (r := ⟨g.lattice, other⟩) htable h.columns_pos⟩⟩
    obtain ⟨ps, hps, harea, hpos⟩ := hsurvey.cell c hc
    rw [area_of_projected (refs_ne_nil hps harea hpos) hps ofText_equalArea, ← harea, hradius]

/-- Two cells side by side in a plane, and three rows of four cells on a sphere. -/
theorem structured_laws_small :
    (∃ m : Mesh ℝ, rectilinear "plane" none #[0, 1, 3] #[0, 2] = .ok m ∧ m.Share 0 1 1 4 ∧
      m.nativeAreas.sum = 6) ∧
    LatLon.ofCounts 4 3 0 (some 3600) 1 = .ok (⟨4, 3, 0, 3600, 1⟩ : LatLon ℝ) ∧
    (ofLatLon (⟨4, 3, 0, 3600, 1⟩ : LatLon ℝ) "globe").Share 4 8 10 11 ∧
    (ofLatLon (⟨4, 3, 0, 3600, 1⟩ : LatLon ℝ) "globe").nativeAreas.sum = 4 * Real.pi := by
  have haccepted : LatLon.ofCounts 4 3 0 (some 3600) 1 = .ok (⟨4, 3, 0, 3600, 1⟩ : LatLon ℝ) :=
    LatLon.ofCounts_of_room (by norm_num) (by norm_num) (by simp) (by simp) 0 one_pos
  have hx : ∀ i, i + 1 < (#[0, 1, 3] : Array ℝ).size →
      (#[0, 1, 3] : Array ℝ).getD i 0 < (#[0, 1, 3] : Array ℝ).getD (i + 1) 0 := by
    rintro (_ | _ | i) hi
    · simp
    · simp
    · simp at hi
      omega
  have hy : ∀ j, j + 1 < (#[0, 2] : Array ℝ).size →
      (#[0, 2] : Array ℝ).getD j 0 < (#[0, 2] : Array ℝ).getD (j + 1) 0 := by
    rintro (_ | j) hj
    · simp
    · simp at hj
  obtain ⟨hplane, hglobe⟩ := structured_laws
  obtain ⟨m, hm, hsurvey, -⟩ := hplane "plane" none #[0, 1, 3] #[0, 2] (by simp) (by simp) hx hy
  obtain ⟨hsphere, -⟩ := hglobe 4 3 0 1 (some 3600) ⟨4, 3, 0, 3600, 1⟩ "globe" haccepted
  refine ⟨⟨m, hm, hsurvey.tabular.eastward 0 (by simp) 0 (by simp), ?_⟩, haccepted,
    hsphere.tabular.northward 1 (by simp) 0 (by simp), ?_⟩
  · rw [hsurvey.total]
    norm_num
  · rw [hsphere.total]
    norm_num

end Regrid.Mesh

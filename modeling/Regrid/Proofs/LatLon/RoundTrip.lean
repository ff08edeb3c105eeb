import Regrid.Proofs.LatLon.Centres
import Regrid.Remap.Operator

/-!
# Grids that are read back from their centres

The dataset of a grid (`create_hntr_grid_dataset`) has its numbers among the attributes. Without
these it is read by the centres of the cells (`ofDataset_toCoordinates`). If the edges between the
rows lie between the poles, the centres of the columns and rows are accepted and make a grid that
has as many of both, the same offset, and the spacing `rereadSpacing` (`reread_eq`): that of the
given grid if there are more than three rows, and one that makes no difference to the edges if there
are one or two. With three rows every step between centres is one to a row at a pole, so the spacing
is right only if it was 3600 minutes, when all rows are of one height (`reread_faithful`,
`reread_threeRows`).
-/

namespace Regrid.LatLon

open Trigonometry

/-- The grid that is made of the centres of the cells of a grid. -/
def reread {α : Type} [Trigonometry α] (g : LatLon α) (radius : α) : Except Error (LatLon α) :=
  ofCentres g.latitudes.toList g.longitudes.toList radius

/-- **A dataset of a grid** that has lost some number of the grid is read by the centres. -/
theorem ofDataset_toCoordinates (g : LatLon Float) {as : Attributes}
    (hnumbers : ∃ k ∈ ["im", "jm", "offi", "dlat"], as.get? k = none) (radius : Option Float) :
    ofDataset { g.toCoordinates with attributes := as } radius =
      g.reread (radius.getD earthRadius) := by
  have hfind : findCoordinates { g.toCoordinates with attributes := as } =
      .ok (.reals ["lat"] [g.rows] g.latitudes
          [("units", .text "degrees_north"), ("standard_name", .text "latitude"),
            ("bounds", .text "lat_b")],
        .reals ["lon"] [g.columns] g.longitudes
          [("units", .text "degrees_east"), ("standard_name", .text "longitude"),
            ("bounds", .text "lon_b")]) := rfl
  have hfloats : ∀ dims shape (xs : Array Float) as,
      (Variable.reals dims shape xs as).floats = xs := fun dims shape xs as => by
    unfold Variable.floats Variable.reals
    rw [Array.map_map]
    exact Array.map_id xs
  rw [ofDataset_of_centres radius hnumbers hfind rfl rfl, hfloats, hfloats]
  rfl

/-! ## Columns -/

theorem modulo_eq_self {x : ℝ} {n : Nat} (hx : 0 ≤ x) (hlt : x < n) : modulo x n = x := by
  have hn : (0 : ℝ) < n := hx.trans_lt hlt
  have hfloor : ⌊x / n⌋ = 0 :=
    Int.floor_eq_zero_iff.mpr ⟨div_nonneg hx hn.le, (div_lt_one hn).mpr hlt⟩
  show x - n * ⌊x / n⌋ = x
  rw [hfloor, Int.cast_zero, mul_zero, sub_zero]

theorem length_longitudes (g : LatLon ℝ) : g.longitudes.toList.length = g.columns := by
  simp [longitudes, longitudeEdges, middles]

theorem toList_longitudes (g : LatLon ℝ) : g.longitudes.toList =
    regular g.columns (-180 + (g.offset + 1 / 2) * (360 / g.columns)) (360 / g.columns) := by
  refine List.ext_getElem (by rw [length_longitudes, length_regular]) fun i hi _ => ?_
  rw [length_longitudes] at hi
  rw [List.getElem_eq_getD 0, List.getElem_eq_getD 0, getD_regular hi, getD_toList,
    getD_longitudes hi]
  ring

/-- **The offset** of a column east of the date line is read back. -/
theorem offsetOf_longitudes {g : LatLon ℝ} (hoffset : 0 ≤ g.offset)
    (hcolumns : g.offset < g.columns) : offsetOf g.longitudes.toList = .ok g.offset := by
  have hpos : (0 : ℝ) < g.columns := hoffset.trans_lt hcolumns
  have hwest : (-180 + (g.offset + 1 / 2) * (360 / g.columns) - 1 / 2 * (360 / g.columns) + 180) /
      (360 / g.columns) = g.offset := by
    field_simp
    ring
  rw [toList_longitudes, offsetOf_regular (Nat.cast_pos.mp hpos), hwest,
    modulo_eq_self hoffset hcolumns]

/-! ## Rows -/

/-- The spacing of the grid that is made of the centres of a grid. -/
noncomputable def rereadSpacing (g : LatLon ℝ) : ℝ :=
  if g.rows = 1 then 10800
  else if g.rows = 2 then 5400
  else if g.rows = 3 then 2700 + g.spacing / 4
  else g.spacing

section Rows

variable {g : LatLon ℝ} (hspacing : 0 < g.spacing) (hroom : (g.rows - 2) * g.spacing < 180 * 60)
include hspacing hroom

/-- **The latitude of an edge** in degrees. -/
theorem getD_latitudeEdges_of_le {j : Nat} (hj : j ≤ g.rows) : g.latitudeEdges.getD j 0 =
    if j = 0 then -90 else if j = g.rows then 90 else (j - g.rows / 2) * (g.spacing / 60) := by
  have hpi := Real.pi_ne_zero
  split_ifs with hsouth hnorth
  · rw [getD_latitudeEdges_eq_arcsin hj, getD_sineEdges hj, if_pos hsouth, Real.arcsin_neg_one]
    field_simp
    norm_num
  · rw [getD_latitudeEdges_eq_arcsin hj, getD_sineEdges hj, if_neg hsouth, if_pos hnorth,
      Real.arcsin_one]
    field_simp
    norm_num
  · exact getD_latitudeEdges hroom.le hspacing.le (by omega) (by omega)

theorem getD_latitudeEdges_lt {j : Nat} (hj : j < g.rows) :
    g.latitudeEdges.getD j 0 < g.latitudeEdges.getD (j + 1) 0 := by
  have hpi : 0 < 180 / Real.pi := div_pos (by norm_num) Real.pi_pos
  have hlatitude : ∀ i, i ≤ g.rows → g.latitudeEdges.getD i 0 =
      edgeLatitude g.rows g.spacing i * (180 / Real.pi) := fun i hi => by
    obtain ⟨hsouth, hnorth⟩ := edgeLatitude_mem hspacing hroom hi
    rw [getD_latitudeEdges_eq_arcsin hi, sineEdges_eq_sin hi, Real.arcsin_sin hsouth hnorth]
  rw [hlatitude j hj.le, hlatitude (j + 1) hj]
  exact mul_lt_mul_of_pos_right (edgeLatitude_lt hspacing hroom hj) hpi

end Rows

theorem length_latitudes (g : LatLon ℝ) : g.latitudes.toList.length = g.rows := by
  simp [latitudes, latitudeEdges, middles, lattice, size_sineEdges]

/-- **A step between two centres** is half of the way between the outer edges of their rows. -/
theorem latitudes_step {g : LatLon ℝ} {i : Nat} (hi : i + 1 < g.rows) :
    g.latitudes.toList.getD (i + 1) 0 - g.latitudes.toList.getD i 0 =
      1 / 2 * (g.latitudeEdges.getD (i + 2) 0 - g.latitudeEdges.getD i 0) := by
  rw [getD_toList, getD_toList, getD_latitudes_middle hi, getD_latitudes_middle (by omega)]
  ring

/-- **The spacing** of the rows that is read back. -/
theorem spacingOf_latitudes {g : LatLon ℝ} (hrows : 0 < g.rows) (hspacing : 0 < g.spacing)
    (hroom : (g.rows - 2) * g.spacing < 180 * 60) :
    spacingOf g.latitudes.toList = .ok (g.rereadSpacing / 60) := by
  have hlength := length_latitudes g
  by_cases hone : g.rows = 1
  · unfold spacingOf rereadSpacing
    simp only [hlength, if_pos hone]
    norm_num
    rfl
  refine spacingOf_of_steps (by omega) (fun i hi => ?_) fun i hi hinner => ?_
  · rw [hlength] at hi
    linarith [latitudes_step hi, getD_latitudeEdges_lt hspacing hroom (show i < g.rows by omega),
      getD_latitudeEdges_lt hspacing hroom hi]
  · rw [hlength] at hi hinner
    rw [latitudes_step hi, getD_latitudeEdges_of_le hspacing hroom (show i ≤ g.rows by omega),
      getD_latitudeEdges_of_le hspacing hroom (show i + 2 ≤ g.rows by omega)]
    unfold rereadSpacing
    -- Up to three rows a step is one to a row at a pole, from there on those are left out.
    rcases (by omega : g.rows = 2 ∧ i = 0 ∨ g.rows = 3 ∧ i = 0 ∨ g.rows = 3 ∧ i = 1 ∨
        3 < g.rows) with ⟨hrows, rfl⟩ | ⟨hrows, rfl⟩ | ⟨hrows, rfl⟩ | hrows
    · norm_num [hrows]
    · norm_num [hrows]
      ring
    · norm_num [hrows]
      ring
    · obtain ⟨hsouth, hnorth⟩ := hinner hrows
      rw [if_neg (by omega), if_neg (by omega), if_neg (by omega), if_neg (by omega),
        if_neg (by omega), if_neg (by omega), if_neg (by omega)]
      push_cast
      ring

/-! ## There and back -/

/-- The sines of the edges between rows are all that a spacing makes a difference to. -/
theorem sineEdges_congr {rows : Nat} {spacing spacing' : ℝ}
    (h : ∀ j, 1 ≤ j → j < rows →
      sin (edgeAngle rows spacing' j) = sin (edgeAngle rows spacing j)) :
    sineEdges rows spacing' = sineEdges rows spacing := by
  unfold sineEdges
  refine congrArg List.toArray (List.map_congr_left fun j hj => ?_)
  have hj := List.mem_range.mp hj
  split_ifs with hsouth hnorth
  · rfl
  · rfl
  · exact h j (by omega) (by omega)

/-- Rows have room on the sphere if the edges between them lie between the poles. -/
theorem room_of_edges {g : LatLon ℝ} (hspacing : 0 < g.spacing)
    (hedges : ∀ j, 1 ≤ j → j < g.rows → |edgeAngle g.rows g.spacing j| < Real.pi / 2) :
    (g.rows - 2) * g.spacing < 180 * 60 := by
  by_cases hrows : 1 < g.rows
  -- The edge behind the first row is as far from the equator as any between two rows.
  · have hsouth := (abs_lt.mp (hedges 1 le_rfl hrows)).1
    rw [edgeAngle_real] at hsouth
    have hpi := Real.pi_pos
    push_cast at hsouth
    by_contra hover
    have := mul_le_mul_of_nonneg_right (not_lt.mp hover) hpi.le
    linarith
  · have hrows : (g.rows : ℝ) ≤ 1 := by exact_mod_cast not_lt.mp hrows
    nlinarith

/-- The spacing that is read back leaves room on the sphere, too. -/
theorem rereadSpacing_room {g : LatLon ℝ} (hspacing : 0 < g.spacing)
    (hroom : (g.rows - 2) * g.spacing < 180 * 60) :
    0 < g.rereadSpacing ∧ (g.rows - 2) * g.rereadSpacing < 180 * 60 := by
  unfold rereadSpacing
  split_ifs with hone htwo hthree
  · rw [hone]
    norm_num
  · rw [htwo]
    norm_num
  · rw [hthree] at hroom ⊢
    push_cast at hroom ⊢
    constructor <;> linarith
  · exact ⟨hspacing, hroom⟩

/-- **What is read back**: everything but the radius and, up to three rows, the spacing. -/
theorem reread_eq {g : LatLon ℝ} (hrows : 0 < g.rows) (hspacing : 0 < g.spacing)
    (hroom : (g.rows - 2) * g.spacing < 180 * 60) (hoffset : 0 ≤ g.offset)
    (hcolumns : g.offset < g.columns) {radius : ℝ} (hradius : 0 < radius) :
    g.reread radius = .ok ⟨g.columns, g.rows, g.offset, g.rereadSpacing, radius⟩ := by
  obtain ⟨hpos, hroom'⟩ := rereadSpacing_room hspacing hroom
  have hminutes : g.rereadSpacing / 60 * Scalar.ofNat 60 = g.rereadSpacing := by
    rw [Scalar.ofNat_real]
    push_cast
    ring
  unfold reread ofCentres
  rw [offsetOf_longitudes hoffset hcolumns, bind_ok, spacingOf_latitudes hrows hspacing hroom,
    bind_ok, length_longitudes, length_latitudes, hminutes]
  exact ofCounts_of_room hpos hroom' (Nat.cast_pos.mp (hoffset.trans_lt hcolumns)) hrows _ hradius

/-- The spacing that is read back makes no difference to the edges, but if three rows are of
different heights. -/
theorem sineEdges_rereadSpacing {g : LatLon ℝ} (h : g.rows = 3 → g.spacing = 3600) :
    sineEdges g.rows g.rereadSpacing = sineEdges g.rows g.spacing := by
  refine sineEdges_congr fun j hj hlt => congrArg sin ?_
  rw [edgeAngle_real, edgeAngle_real]
  unfold rereadSpacing
  split_ifs with hone htwo hthree
  · omega
  -- The one edge between two rows is the equator, whatever the spacing.
  · obtain rfl : j = 1 := by omega
    rw [htwo]
    norm_num
  · rw [h hthree]
    norm_num
  · rfl

/-- Then it does. -/
theorem spacing_of_latitudeEdges {g : LatLon ℝ} (hspacing : 0 < g.spacing)
    (hroom : (g.rows - 2) * g.spacing < 180 * 60) {radius : ℝ}
    (h : (⟨g.columns, g.rows, g.offset, g.rereadSpacing, radius⟩ : LatLon ℝ).latitudeEdges =
      g.latitudeEdges) (hrows : g.rows = 3) : g.spacing = 3600 := by
  obtain ⟨hpos, hroom'⟩ := rereadSpacing_room hspacing hroom
  have hedge : ((2 : Nat) - g.rows / 2 : ℝ) * (g.rereadSpacing / 60) =
      ((2 : Nat) - g.rows / 2) * (g.spacing / 60) := by
    rw [← getD_latitudeEdges hroom.le hspacing.le (by decide) (by omega), ← h]
    exact (getD_latitudeEdges (g := ⟨_, g.rows, _, g.rereadSpacing, _⟩) hroom'.le hpos.le
      (by decide) (by show 2 < g.rows; omega)).symm
  have hread : g.rereadSpacing = 2700 + g.spacing / 4 := by
    unfold rereadSpacing
    rw [if_neg (by omega), if_neg (by omega), if_pos hrows]
  rw [hread, hrows] at hedge
  push_cast at hedge
  linarith

/-- **There and back.** A grid whose first column begins less than a whole turn east of the date
line and whose edges between rows lie between the poles is read back from the coordinates of its
dataset with as many columns and rows, at the same longitudes. The latitudes of the edges, and with
them the partition of the sphere that every operator is built from, are the same just if there are
not three rows, or these are of one height. -/
theorem reread_faithful {g : LatLon ℝ}
    (haccepted : ofCounts g.columns g.rows g.offset (some g.spacing) g.radius = .ok g)
    (hoffset : 0 ≤ g.offset) (hcolumns : g.offset < g.columns)
    (hedges : ∀ j, 1 ≤ j → j < g.rows → |edgeAngle g.rows g.spacing j| < Real.pi / 2)
    {radius : ℝ} (hradius : 0 < radius) :
    (∀ (f : LatLon Float) (as : Attributes) (r : Option Float),
      (∃ k ∈ ["im", "jm", "offi", "dlat"], as.get? k = none) →
      ofDataset { f.toCoordinates with attributes := as } r = f.reread (r.getD earthRadius)) ∧
    ∃ g', g.reread radius = .ok g' ∧ g'.columns = g.columns ∧ g'.rows = g.rows ∧
      g'.longitudeEdges = g.longitudeEdges ∧
      (g'.latitudeEdges = g.latitudeEdges ↔ (g.rows = 3 → g.spacing = 3600)) ∧
      ((g.rows = 3 → g.spacing = 3600) → ∀ (other : Lattice ℝ) (q : OperatorRequest ℝ),
        Remap.build ⟨g'.lattice, other⟩ q = Remap.build ⟨g.lattice, other⟩ q ∧
        Remap.build ⟨other, g'.lattice⟩ q = Remap.build ⟨other, g.lattice⟩ q) := by
  obtain ⟨-, hrows, hspacing, -⟩ := accepted_of_ofCounts haccepted
  have hroom := room_of_edges hspacing hedges
  have hlattice (h : g.rows = 3 → g.spacing = 3600) :
      (⟨g.columns, g.rows, g.offset, g.rereadSpacing, radius⟩ : LatLon ℝ).lattice = g.lattice :=
    congrArg (Lattice.mk g.columns g.offset) (sineEdges_rereadSpacing h)
  refine ⟨fun f as r hnumbers => ofDataset_toCoordinates f hnumbers r, _,
    reread_eq hrows hspacing hroom hoffset hcolumns hradius, rfl, rfl, rfl,
    ⟨spacing_of_latitudeEdges hspacing hroom, fun h => ?_⟩, fun h other q => ?_⟩
  · unfold latitudeEdges
    rw [hlattice h]
  · rw [hlattice h]
    exact ⟨rfl, rfl⟩

/-- Four rows of 40 degrees but for the polar ones, from half a column east of the date line. -/
theorem reread_faithful_fourRows :
    let g : LatLon ℝ := ⟨4, 4, 1 / 2, 2400, 1⟩
    ∃ g', g.reread 1 = .ok g' ∧ g'.longitudeEdges = g.longitudeEdges ∧
      g'.latitudeEdges = g.latitudeEdges := by
  intro g
  have hspacing : (0 : ℝ) < 2400 := by norm_num
  have hroom : ((4 : Nat) - 2 : ℝ) * 2400 < 180 * 60 := by norm_num
  have haccepted : ofCounts g.columns g.rows g.offset (some g.spacing) g.radius = .ok g :=
    ofCounts_of_room hspacing hroom (by decide) (by decide) _ one_pos
  obtain ⟨-, g', hread, -, -, hlongitudes, hlatitudes, -⟩ :=
    reread_faithful haccepted (by norm_num [g]) (by norm_num [g])
      (fun j hsouth hnorth => abs_edgeAngle_lt hspacing hroom hsouth hnorth) one_pos
  exact ⟨g', hread, hlongitudes, hlatitudes.mpr fun h => absurd h (by decide)⟩

/-- **Three rows of different heights** are not read back. The row at the equator reaches from 10
degrees south to 10 degrees north; what is read has it from 25 degrees south to 25 degrees north. -/
theorem reread_threeRows :
    let g : LatLon ℝ := ⟨4, 3, 0, 1200, 6371000⟩
    ofCounts g.columns g.rows g.offset (some g.spacing) g.radius = .ok g ∧
      (∀ j, 1 ≤ j → j < g.rows → |edgeAngle g.rows g.spacing j| < Real.pi / 2) ∧
      ∃ g', g.reread 6371000 = .ok g' ∧ g.latitudeEdges.getD 2 0 = 10 ∧
        g'.latitudeEdges.getD 2 0 = 25 ∧ g'.latitudeEdges ≠ g.latitudeEdges := by
  intro g
  have hspacing : (0 : ℝ) < 1200 := by norm_num
  have hroom : ((3 : Nat) - 2 : ℝ) * 1200 < 180 * 60 := by norm_num
  have hread : g.reread 6371000 = .ok ⟨4, 3, 0, 3000, 6371000⟩ := by
    rw [reread_eq (by decide) hspacing hroom le_rfl (by norm_num [g]) (by norm_num)]
    norm_num [g, rereadSpacing]
  have hgiven : g.latitudeEdges.getD 2 0 = 10 := by
    rw [getD_latitudeEdges hroom.le hspacing.le (by decide) (by decide)]
    norm_num [g]
  have hreread : (⟨4, 3, 0, 3000, 6371000⟩ : LatLon ℝ).latitudeEdges.getD 2 0 = 25 := by
    rw [getD_latitudeEdges (by norm_num) (by norm_num) (by decide) (by decide)]
    norm_num
  refine ⟨ofCounts_of_room hspacing hroom (by decide) (by decide) _ (by norm_num),
    fun j hsouth hnorth => abs_edgeAngle_lt hspacing hroom hsouth hnorth, _, hread, hgiven, hreread,
    fun h => ?_⟩
  rw [h, hgiven] at hreread
  norm_num at hreread

end Regrid.LatLon

import Regrid.Proofs.LatLon.Regular

/-!
# Grids of cell centres

A grid that is made of centres (`hntr_grid_from_dataset`) is to have its centres there. Those of its
columns lie at the longitudes up to whole turns (`longitudes_follow`). Those of its rows follow the
latitudes (`latitudes_follow`), and lie at them if they are as far north as south of the equator
(`latitudes_follow_centred`). `ofCentres_describes` puts this together. That the rows lie so is not
looked at: latitudes of a part of the northern hemisphere make a grid about the equator
(`ofCentres_shifted`).
-/

namespace Regrid.LatLon

open Trigonometry

/-! ## From numbers to centres -/

theorem getD_middles {xs : Array ℝ} {i : Nat} (hi : i + 1 < xs.size) :
    (middles xs).getD i 0 = 1 / 2 * (xs.getD i 0 + xs.getD (i + 1) 0) := by
  have hsize : i < (middles xs).size := by
    simp [middles]
    omega
  simp only [Array.getD_eq_getD_getElem?, Array.getElem?_eq_getElem hsize,
    Array.getElem?_eq_getElem hi, Array.getElem?_eq_getElem (Nat.lt_of_succ_lt hi),
    Option.getD_some]
  simp [middles, Nat.add_comm]

theorem getD_longitudeEdges {g : LatLon ℝ} {i : Nat} (hi : i ≤ g.columns) :
    g.longitudeEdges.getD i 0 = -180 + (g.offset + i) * (360 / g.columns) := by
  unfold longitudeEdges
  rw [getD_map_range (Nat.lt_succ_of_le hi)]
  simp

/-- **The centre of a column.** -/
theorem getD_longitudes {g : LatLon ℝ} {i : Nat} (hi : i < g.columns) : g.longitudes.getD i 0 =
    -180 + (g.offset + i + 1 / 2) * (360 / g.columns) := by
  have hsize : g.longitudeEdges.size = g.columns + 1 := by simp [longitudeEdges]
  unfold longitudes
  rw [getD_middles (by omega), getD_longitudeEdges hi.le, getD_longitudeEdges hi]
  push_cast
  ring

/-- The latitude of an edge is read off its sine. -/
theorem getD_latitudeEdges_eq_arcsin {g : LatLon ℝ} {j : Nat} (hj : j ≤ g.rows) :
    g.latitudeEdges.getD j 0 =
      Real.arcsin ((sineEdges g.rows g.spacing).getD j 0) * (180 / Real.pi) := by
  have hsize : j < (sineEdges g.rows g.spacing).size := by
    rw [size_sineEdges]
    omega
  unfold latitudeEdges lattice
  rw [Array.getD_eq_getD_getElem?, Array.getD_eq_getD_getElem?, Array.getElem?_map,
    Array.getElem?_eq_getElem hsize, Option.map_some, Option.getD_some, Option.getD_some,
    arcsin_real, Scalar.ofNat_real, pi_real, Nat.cast_ofNat]

/-- The edge of a row that has room on the sphere lies where its angle is. -/
theorem getD_latitudeEdges {g : LatLon ℝ} (hroom : (g.rows - 2) * g.spacing ≤ 180 * 60)
    (hspacing : 0 ≤ g.spacing) {j : Nat} (hsouth : 1 ≤ j) (hnorth : j < g.rows) :
    g.latitudeEdges.getD j 0 = (j - g.rows / 2) * (g.spacing / 60) := by
  have hpole : (g.rows - 2) * g.spacing * (Real.pi / 21600) ≤ Real.pi / 2 := by
    nlinarith [Real.pi_pos]
  have hangle := abs_le.mp ((abs_edgeAngle_le hspacing hsouth hnorth).trans hpole)
  have hpi := Real.pi_ne_zero
  rw [getD_latitudeEdges_eq_arcsin hnorth.le, getD_sineEdges hnorth.le, if_neg (by omega),
    if_neg (by omega), sin_real, Real.arcsin_sin (by linarith [hangle.1]) hangle.2, edgeAngle_real]
  field_simp
  ring

theorem size_latitudeEdges (g : LatLon ℝ) : g.latitudeEdges.size = g.rows + 1 := by
  unfold latitudeEdges
  rw [Array.size_map]
  exact size_sineEdges g.rows g.spacing

/-- The centre of a row lies in the middle between its edges. -/
theorem getD_latitudes_middle {g : LatLon ℝ} {k : Nat} (hk : k < g.rows) : g.latitudes.getD k 0 =
    1 / 2 * (g.latitudeEdges.getD k 0 + g.latitudeEdges.getD (k + 1) 0) := by
  have hsize := size_latitudeEdges g
  exact getD_middles (by omega)

/-- **The centre of a row** that touches no pole, if the rows have room on the sphere. -/
theorem getD_latitudes {g : LatLon ℝ} (hroom : (g.rows - 2) * g.spacing ≤ 180 * 60)
    (hspacing : 0 ≤ g.spacing) {k : Nat} (hsouth : 1 ≤ k) (hnorth : k + 1 < g.rows) :
    g.latitudes.getD k 0 = (k + 1 / 2 - g.rows / 2) * (g.spacing / 60) := by
  rw [getD_latitudes_middle (by omega), getD_latitudeEdges hroom hspacing hsouth (by omega),
    getD_latitudeEdges hroom hspacing (by omega) hnorth]
  push_cast
  ring

/-! ## There and back -/

/-- Columns that begin at the first longitude follow the others up to whole turns. -/
theorem longitudes_follow {g : LatLon ℝ} {lon : List ℝ} (hcolumns : 0 < g.columns)
    (hoffset : g.offset = modulo
      ((lon.getD 0 0 - 1 / 2 * (360 / g.columns) + 180) / (360 / g.columns)) g.columns)
    (hsteps : ∀ i, i + 1 < g.columns →
      close (lon.getD (i + 1) 0 - lon.getD i 0) (360 / g.columns : ℝ) = true)
    {i : Nat} (hi : i < g.columns) : ∃ turns : Int,
      |g.longitudes.getD i 0 - (lon.getD i 0 + 360 * turns)| ≤ i * tolerance (360 / g.columns) := by
  have hcolumns : (g.columns : ℝ) ≠ 0 := Nat.cast_ne_zero.mpr hcolumns.ne'
  obtain ⟨turns, hturns⟩ := exists_modulo
    ((lon.getD 0 0 - 1 / 2 * (360 / g.columns) + 180) / (360 / g.columns)) g.columns
  rw [← hoffset] at hturns
  have hdrift := abs_drift_le (f := fun i => lon.getD i 0) (Nat.zero_le i)
    fun n _ hn => hsteps n (by omega)
  have hcentre : g.longitudes.getD i 0 =
      lon.getD 0 0 + i * (360 / g.columns) + 360 * ((-turns : Int) : ℝ) := by
    rw [getD_longitudes hi]
    field_simp at hturns ⊢
    push_cast
    linarith
  refine ⟨-turns, ?_⟩
  rw [hcentre, abs_sub_comm]
  calc |lon.getD i 0 + 360 * ((-turns : Int) : ℝ) -
        (lon.getD 0 0 + i * (360 / g.columns) + 360 * ((-turns : Int) : ℝ))|
      = |lon.getD i 0 - lon.getD 0 0 - (i - (0 : Nat)) * (360 / g.columns)| := by
        congr 1
        push_cast
        ring
    _ ≤ (i - (0 : Nat)) * tolerance (360 / g.columns) := hdrift
    _ = i * tolerance (360 / g.columns) := by rw [Nat.cast_zero, sub_zero]

/-- Rows between the poles follow the latitudes, but for a common shift. -/
theorem latitudes_follow {g : LatLon ℝ} {lat : List ℝ}
    (hroom : (g.rows - 2) * g.spacing ≤ 180 * 60) (hspacing : 0 ≤ g.spacing)
    (hsteps : ∀ i, 1 ≤ i → i + 2 < g.rows →
      close (lat.getD (i + 1) 0 - lat.getD i 0) (g.spacing / 60) = true)
    {j k : Nat} (hj : 1 ≤ j) (hjk : j ≤ k) (hk : k + 1 < g.rows) :
    |(g.latitudes.getD k 0 - lat.getD k 0) - (g.latitudes.getD j 0 - lat.getD j 0)| ≤
      (k - j) * tolerance (g.spacing / 60) := by
  have hdrift := abs_drift_le (f := fun i => lat.getD i 0) hjk
    fun n hjn hnk => hsteps n (by omega) (by omega)
  rw [getD_latitudes hroom hspacing (by omega) hk, getD_latitudes hroom hspacing hj (by omega),
    abs_sub_comm]
  refine (congrArg abs ?_).trans_le hdrift
  ring

/-- So they are where the latitudes are, if these lie symmetrically about the equator. -/
theorem latitudes_follow_centred {g : LatLon ℝ} {lat : List ℝ}
    (hroom : (g.rows - 2) * g.spacing ≤ 180 * 60) (hspacing : 0 ≤ g.spacing)
    (hsteps : ∀ i, 1 ≤ i → i + 2 < g.rows →
      close (lat.getD (i + 1) 0 - lat.getD i 0) (g.spacing / 60) = true)
    (hcentred : lat.getD 1 0 + lat.getD (g.rows - 2) 0 = 0)
    {k : Nat} (hsouth : 1 ≤ k) (hnorth : k + 1 < g.rows) :
    |g.latitudes.getD k 0 - lat.getD k 0| ≤ (g.rows - 3) / 2 * tolerance (g.spacing / 60) := by
  have hfirst := abs_le.mp (latitudes_follow hroom hspacing hsteps le_rfl hsouth hnorth)
  have hlast := abs_le.mp (latitudes_follow hroom hspacing hsteps hsouth
    (show k ≤ g.rows - 2 by omega) (by omega))
  have hgrid : g.latitudes.getD 1 0 + g.latitudes.getD (g.rows - 2) 0 = 0 := by
    rw [getD_latitudes hroom hspacing le_rfl (by omega),
      getD_latitudes hroom hspacing (by omega) (by omega), Nat.cast_sub (by omega)]
    push_cast
    ring
  rw [Nat.cast_sub (by omega)] at hlast
  push_cast at hfirst hlast
  rw [abs_le]
  constructor <;> linarith [hfirst.1, hfirst.2, hlast.1, hlast.2]

/-- **Centres describe a grid, or are refused.** The grid has a column for every longitude, with its
centre there up to whole turns, and a row for every latitude. If the rows have room on the sphere,
the centres of those between the poles follow the latitudes but for a common shift, and if
these lie symmetrically about the equator, without one. All of this up to what the steps leave the
regular one by, which is at most a tolerance for each of them.

Where the latitudes lie is not looked at, so the shift is not always zero (`ofCentres_shifted`). -/
theorem ofCentres_describes {lat lon : List ℝ} (hlat : lat ≠ []) (hlon : lon ≠ []) (radius : ℝ) :
    (∃ fault, ofCentres lat lon radius = .error (.malformedGrid fault)) ∨
      ∃ g, ofCentres lat lon radius = .ok g ∧ g.rows = lat.length ∧ g.columns = lon.length ∧
        0 ≤ g.offset ∧ g.offset < g.columns ∧ 0 < g.spacing ∧
        (∀ i, i < g.columns → ∃ turns : Int,
          |g.longitudes.getD i 0 - (lon.getD i 0 + 360 * turns)| ≤
            i * tolerance (360 / g.columns)) ∧
        ((g.rows - 2) * g.spacing ≤ 180 * 60 →
          (∀ j k, 1 ≤ j → j ≤ k → k + 1 < g.rows →
            |(g.latitudes.getD k 0 - lat.getD k 0) - (g.latitudes.getD j 0 - lat.getD j 0)| ≤
              (k - j) * tolerance (g.spacing / 60)) ∧
          (lat.getD 1 0 + lat.getD (g.rows - 2) 0 = 0 → ∀ k, 1 ≤ k → k + 1 < g.rows →
            |g.latitudes.getD k 0 - lat.getD k 0| ≤
              (g.rows - 3) / 2 * tolerance (g.spacing / 60))) := by
  rcases ofCentres_cases hlat hlon radius with hfault |
    ⟨offset, spacing, hok, hspacing, hoffset, hlonSteps, hlatSteps⟩
  · exact Or.inl hfault
  have hcolumns : 0 < lon.length := List.length_pos_iff.mpr hlon
  refine Or.inr ⟨_, hok, rfl, rfl, ?_, ?_, hspacing, fun i hi => ?_, fun hroom => ⟨?_, ?_⟩⟩
  · exact hoffset ▸ modulo_nonneg _ hcolumns
  · exact hoffset ▸ modulo_lt _ hcolumns
  · exact longitudes_follow hcolumns hoffset hlonSteps hi
  · exact fun j k hj hjk hk => latitudes_follow hroom hspacing.le hlatSteps hj hjk hk
  · exact fun hcentred k hsouth hnorth =>
      latitudes_follow_centred hroom hspacing.le hlatSteps hcentred hsouth hnorth

theorem regular_four (start step : ℝ) :
    regular 4 start step = [start, start + step, start + 2 * step, start + 3 * step] := by
  simp [regular, List.range_succ]

/-- Four columns from the date line on, and four rows in steps of a given width from a latitude
on. -/
theorem ofCentres_four (south : ℝ) {step radius : ℝ} (hstep : 0 < step) (hroom : step < 90)
    (hradius : 0 < radius) :
    ofCentres [south, south + step, south + 2 * step, south + 3 * step] [-135, -45, 45, 135]
        radius =
      .ok ⟨4, 4, 0, step * 60, radius⟩ := by
  have hlon : regular 4 (-135) (360 / (4 : Nat)) = [-135, -45, 45, 135] := by
    rw [regular_four]
    norm_num
  have hoffset :
      modulo ((-135 - 1 / 2 * (360 / (4 : Nat)) + 180) / (360 / (4 : Nat)) : ℝ) 4 = 0 := by
    show (_ - _ * _ : ℝ) = 0
    norm_num
  have := ofCentres_regular (show 2 ≤ 4 by decide) (show 0 < 4 by decide) south (-135) hstep
    (by push_cast; linarith) hradius
  rwa [regular_four, hlon, hoffset] at this

/-- Rows that divide the meridian equally. -/
theorem ofCentres_describes_quarters : ∃ g : LatLon ℝ,
    ofCentres [-135 / 2, -45 / 2, 45 / 2, 135 / 2] [-135, -45, 45, 135] 1 = .ok g ∧
      g.rows = 4 ∧ g.spacing = 2700 ∧
      |g.latitudes.getD 1 0 - -45 / 2| ≤ (g.rows - 3) / 2 * tolerance (g.spacing / 60) := by
  have hok := ofCentres_four (-135 / 2) (show (0 : ℝ) < 45 by norm_num) (by norm_num) one_pos
  have hlat : [(-135 / 2 : ℝ), -135 / 2 + 45, -135 / 2 + 2 * 45, -135 / 2 + 3 * 45] =
      [-135 / 2, -45 / 2, 45 / 2, 135 / 2] := by norm_num
  rw [hlat] at hok
  have hrows : [(-135 / 2 : ℝ), -45 / 2, 45 / 2, 135 / 2] ≠ [] := List.cons_ne_nil _ _
  have hcolumns : [(-135 : ℝ), -45, 45, 135] ≠ [] := List.cons_ne_nil _ _
  rcases ofCentres_describes hrows hcolumns 1 with
    ⟨fault, h⟩ | ⟨g, h, -, -, -, -, -, -, hlatitudes⟩
  · rw [h] at hok
    cases hok
  · rw [h] at hok
    obtain rfl := Except.ok.inj hok
    refine ⟨_, h, rfl, by norm_num, ?_⟩
    exact (hlatitudes (by norm_num)).2 (by norm_num) 1 le_rfl (by norm_num)

/-- **Latitudes that are not those of a global grid** can be accepted: from 10 to 40 degrees north,
they make a grid whose rows between the poles lie at 5 degrees south and north. -/
theorem ofCentres_shifted :
    ∃ g, ofCentres [10, 20, 30, 40] [-135, -45, 45, 135] (6371000 : ℝ) = .ok g ∧
      g.latitudes.getD 1 0 = -5 ∧ g.latitudes.getD 2 0 = 5 := by
  have hok := ofCentres_four 10 (show (0 : ℝ) < 10 by norm_num) (by norm_num)
    (show (0 : ℝ) < 6371000 by norm_num)
  norm_num at hok
  refine ⟨_, hok, ?_, ?_⟩
  · rw [getD_latitudes (by norm_num) (by norm_num) (by norm_num) (by norm_num)]
    norm_num
  · rw [getD_latitudes (by norm_num) (by norm_num) (by norm_num) (by norm_num)]
    norm_num

/-! ## Datasets -/

/-- **A dataset without all numbers of a grid** is read by the centres of its two coordinates. -/
theorem ofDataset_of_centres {ds : Dataset} {lat lon : Variable} (radius : Option Float)
    (hnumbers : ∃ k ∈ ["im", "jm", "offi", "dlat"], ds.attributes.get? k = none)
    (hfind : findCoordinates ds = .ok (lat, lon)) (hlat : lat.values.rank = 1)
    (hlon : lon.values.rank = 1) : ofDataset ds radius =
      ofCentres lat.floats.toList lon.floats.toList (radius.getD earthRadius) := by
  unfold ofDataset
  obtain ⟨k, hk, hnone⟩ := hnumbers
  split
  · rename_i im jm offi dlat him hjm hoffi hdlat
    simp only [List.mem_cons, List.not_mem_nil, or_false] at hk
    rcases hk with rfl | rfl | rfl | rfl
    · cases him.symm.trans hnone
    · cases hjm.symm.trans hnone
    · cases hoffi.symm.trans hnone
    · cases hdlat.symm.trans hnone
  · rw [hfind, bind_ok]
    simp only [hlat, hlon, and_self, if_true]

end Regrid.LatLon

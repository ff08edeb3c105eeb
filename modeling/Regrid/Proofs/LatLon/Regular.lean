import Mathlib.Tactic.LinearCombination
import Regrid.LatLon.Coordinates
import Regrid.Proofs.LatLon.Partition
import Regrid.Proofs.Outcome
import Regrid.Proofs.Real

/-!
# Regular steps

The numbers of a grid are read off the steps of its centres. Steps that are close to a regular one
leave it by at most a tolerance each (`abs_drift_le`). Centres whose steps are not are refused, and
the others make a grid that has as many rows and columns and these steps (`ofCentres_cases`).

The rows of a grid follow one another if those between the poles have room on the sphere
(`hasStep_sineEdges`). So regular centres are always accepted with it (`ofCentres_regular`).
-/

namespace Regrid.LatLon

open Trigonometry

/-! ## Regular steps -/

/-- How far a number may lie from another one to be close to it. -/
noncomputable def tolerance (y : ℝ) : ℝ := 1 / 100000000 + 1 / 100000 * |y|

theorem close_iff {x y : ℝ} : close x y = true ↔ |x - y| ≤ tolerance y := by
  have heq : (x == y) = true → |x - y| ≤ tolerance y := fun h => by
    rw [beq_iff_eq.mp h, sub_self, abs_zero]
    unfold tolerance
    positivity
  unfold close
  rw [Bool.or_eq_true, Bool.and_eq_true, decide_eq_true_eq, Scalar.abs_real, Scalar.abs_real,
    Scalar.ratio_real, Scalar.ratio_real]
  refine ⟨fun h => h.elim (fun h => ?_) heq, fun h => Or.inl ⟨?_, rfl⟩⟩
  · exact_mod_cast h.1
  · exact_mod_cast h

theorem getD_toList (xs : Array ℝ) (i : Nat) : xs.toList.getD i 0 = xs.getD i 0 := by
  rw [List.getD_eq_getElem?_getD, Array.getElem?_toList, ← Array.getD_eq_getD_getElem?]

theorem length_differences (xs : List ℝ) : (differences xs).length = xs.length - 1 := by
  simp [differences]

theorem getElem_differences (xs : List ℝ) {i : Nat} (h : i < (differences xs).length) :
    (differences xs)[i] = xs.getD (i + 1) 0 - xs.getD i 0 := by
  have hlength := length_differences xs
  rw [← List.getElem_eq_getD (h := by omega), ← List.getElem_eq_getD (h := by omega)]
  simp [differences]

/-- **Steps that are close to one step** leave it by no more than as many tolerances as there are
steps. -/
theorem abs_drift_le {f : Nat → ℝ} {step : ℝ} {j k : Nat} (hjk : j ≤ k)
    (h : ∀ i, j ≤ i → i < k → close (f (i + 1) - f i) step = true) :
    |f k - f j - (k - j) * step| ≤ (k - j) * tolerance step := by
  induction k, hjk using Nat.le_induction with
  | base => simp
  | succ k hjk ih =>
    have hlast := close_iff.mp (h k hjk (Nat.lt_succ_self k))
    have hbefore := ih fun i hji hik => h i hji (Nat.lt_succ_of_lt hik)
    calc |f (k + 1) - f j - ((k + 1 : Nat) - j) * step|
        = |(f (k + 1) - f k - step) + (f k - f j - (k - j) * step)| := by
          congr 1
          push_cast
          ring
      _ ≤ tolerance step + (k - j) * tolerance step :=
          (abs_add_le _ _).trans (add_le_add hlast hbefore)
      _ = ((k + 1 : Nat) - j) * tolerance step := by
          push_cast
          ring

/-! ## From centres to numbers -/

/-- The longitudes of a global grid have regular steps. -/
theorem offsetOf_cases {lon : List ℝ} (hlon : lon ≠ []) :
    (∃ fault, offsetOf lon = .error (.malformedGrid fault)) ∨
      offsetOf lon = .ok (modulo ((lon.getD 0 0 - 1 / 2 * (360 / lon.length) + 180)
        / (360 / lon.length)) lon.length) ∧
      ∀ i, i + 1 < lon.length →
        close (lon.getD (i + 1) 0 - lon.getD i 0) (360 / lon.length : ℝ) = true := by
  have hlength : lon.length ≠ 0 := List.length_eq_zero_iff.not.mpr hlon
  have hhead : lon.headD 0 = lon.getD 0 0 := by cases lon <;> rfl
  unfold offsetOf
  simp only [if_neg hlength, Scalar.ofNat_real, Scalar.ratio_real, hhead]
  split_ifs with hsteps
  · exact Or.inl ⟨_, rfl⟩
  · refine Or.inr ⟨by push_cast; rfl, fun i hi => ?_⟩
    have hall : ∀ d ∈ differences lon, close d (360 / lon.length : ℝ) = true := by
      simpa [show 1 < lon.length by omega] using hsteps
    have hdiff : i < (differences lon).length := by rw [length_differences]; omega
    rw [← getElem_differences lon hdiff]
    exact hall _ (List.getElem_mem hdiff)

/-- So have the latitudes, but for the two rows at the poles. -/
theorem spacingOf_cases (lat : List ℝ) :
    (∃ fault, spacingOf lat = .error (.malformedGrid fault)) ∨
      ∃ step, spacingOf lat = .ok step ∧ ∀ i, 1 ≤ i → i + 2 < lat.length →
        close (lat.getD (i + 1) 0 - lat.getD i 0) step = true := by
  have hinner : ∀ i, 1 ≤ i → i + 2 < lat.length → lat.getD (i + 1) 0 - lat.getD i 0 ∈
      if 3 < lat.length then ((differences lat).drop 1).dropLast else differences lat := by
    intro i hi hlt
    have hdiff : i < (differences lat).length := by rw [length_differences]; omega
    rw [if_pos (by omega), ← getElem_differences lat hdiff]
    refine List.mem_iff_getElem.mpr ⟨i - 1, ?_, ?_⟩
    · rw [List.length_dropLast, List.length_drop, length_differences]
      omega
    · rw [List.getElem_dropLast, List.getElem_drop]
      congr 1
      omega
  unfold spacingOf
  simp only
  by_cases hone : lat.length = 1
  · exact Or.inr ⟨_, if_pos hone, fun i hi hlt => by omega⟩
  rw [if_neg hone]
  by_cases hascending : (differences lat).any (· ≤ 0) = true
  · rw [if_pos hascending]
    exact Or.inl ⟨_, rfl⟩
  rw [if_neg hascending]
  generalize (if 3 < lat.length then ((differences lat).drop 1).dropLast else differences lat) =
    inner at hinner ⊢
  by_cases hregular : inner.all (close · (median inner)) = true
  · rw [if_pos hregular]
    exact Or.inr ⟨_, rfl, fun i hi hlt => List.all_eq_true.mp hregular _ (hinner i hi hlt)⟩
  · rw [if_neg hregular]
    exact Or.inl ⟨_, rfl⟩

/-- A grid of positive counts is accepted for positive numbers with which the rows follow one
another. -/
theorem ofCounts_real {columns rows : Nat} (hcolumns : 0 < columns) (hrows : 0 < rows)
    (offset spacing radius : ℝ) : ofCounts columns rows offset (some spacing) radius =
      if 0 < spacing then
        if 0 < radius then
          if hasStep (sineEdges rows spacing).toList = true then
            .error (.malformedGrid (.overrun rows (Scalar.toFloat spacing)))
          else .ok ⟨columns, rows, offset, spacing, radius⟩
        else .error (.malformedGrid (.radius (Scalar.toFloat radius)))
      else .error (.malformedGrid (.spacing (Scalar.toFloat spacing))) := by
  have hfinite (x : ℝ) : Scalar.isFinite x = true := rfl
  unfold ofCounts
  rw [if_neg (by omega)]
  simp only [Int.toNat_natCast, Option.getD_some, hfinite, Bool.true_and, decide_eq_true_eq,
    if_true]
  split_ifs <;> rfl

theorem ofCounts_cases {columns rows : Nat} (hcolumns : 0 < columns) (hrows : 0 < rows)
    (offset spacing radius : ℝ) :
    (∃ fault, ofCounts columns rows offset (some spacing) radius = .error (.malformedGrid fault)) ∨
      0 < spacing ∧ ofCounts columns rows offset (some spacing) radius =
        .ok ⟨columns, rows, offset, spacing, radius⟩ := by
  rw [ofCounts_real hcolumns hrows]
  split_ifs with hspacing
  · exact Or.inl ⟨_, rfl⟩
  · exact Or.inr ⟨hspacing, rfl⟩
  · exact Or.inl ⟨_, rfl⟩
  · exact Or.inl ⟨_, rfl⟩

/-- **Centres that are accepted** have regular steps, and the grid has as many rows and columns,
with these steps. -/
theorem ofCentres_cases {lat lon : List ℝ} (hlat : lat ≠ []) (hlon : lon ≠ []) (radius : ℝ) :
    (∃ fault, ofCentres lat lon radius = .error (.malformedGrid fault)) ∨
      ∃ offset spacing : ℝ, ofCentres lat lon radius =
          .ok ⟨lon.length, lat.length, offset, spacing, radius⟩ ∧ 0 < spacing ∧
        offset = modulo ((lon.getD 0 0 - 1 / 2 * (360 / lon.length) + 180) / (360 / lon.length))
          lon.length ∧
        (∀ i, i + 1 < lon.length →
          close (lon.getD (i + 1) 0 - lon.getD i 0) (360 / lon.length : ℝ) = true) ∧
        ∀ i, 1 ≤ i → i + 2 < lat.length →
          close (lat.getD (i + 1) 0 - lat.getD i 0) (spacing / 60) = true := by
  unfold ofCentres
  rcases offsetOf_cases hlon with ⟨fault, h⟩ | ⟨hoffset, hlonSteps⟩
  · exact Or.inl ⟨fault, by rw [h]; rfl⟩
  rcases spacingOf_cases lat with ⟨fault, h⟩ | ⟨step, hspacing, hlatSteps⟩
  · exact Or.inl ⟨fault, by rw [hoffset, bind_ok, h]; rfl⟩
  rw [hoffset, bind_ok, hspacing, bind_ok]
  rcases ofCounts_cases (List.length_pos_iff.mpr hlon) (List.length_pos_iff.mpr hlat) _
    (step * Scalar.ofNat 60) radius with h | ⟨hpos, h⟩
  · exact Or.inl h
  · refine Or.inr ⟨_, _, h, hpos, rfl, hlonSteps, ?_⟩
    rwa [Scalar.ofNat_real, Nat.cast_ofNat, mul_div_cancel_right₀ step (by norm_num)]

/-! ## Room on the sphere -/

theorem edgeAngle_real (rows : Nat) (spacing : ℝ) (j : Nat) :
    edgeAngle rows spacing j = (j - rows / 2) * spacing * (Real.pi / 10800) := by
  unfold edgeAngle minute turn
  simp only [Scalar.ratio_real, Scalar.ofNat_real, pi_real]
  push_cast
  ring

/-- An edge between two rows is not further from the equator than the rows between the poles
reach. -/
theorem abs_edgeAngle_le {rows j : Nat} {spacing : ℝ} (hspacing : 0 ≤ spacing) (hsouth : 1 ≤ j)
    (hnorth : j < rows) :
    |edgeAngle rows spacing j| ≤ (rows - 2) * spacing * (Real.pi / 21600) := by
  have hsouth : (1 : ℝ) ≤ j := by exact_mod_cast hsouth
  have hnorth : (j : ℝ) + 1 ≤ rows := by exact_mod_cast hnorth
  have hrow : |(j : ℝ) - rows / 2| ≤ (rows - 2) / 2 := abs_le.mpr ⟨by linarith, by linarith⟩
  have hpi := Real.pi_pos
  rw [edgeAngle_real, abs_mul, abs_mul, abs_of_nonneg hspacing,
    abs_of_pos (div_pos hpi (by norm_num : (0 : ℝ) < 10800))]
  calc |(j : ℝ) - rows / 2| * spacing * (Real.pi / 10800)
      ≤ (rows - 2) / 2 * spacing * (Real.pi / 10800) := by gcongr
    _ = (rows - 2) * spacing * (Real.pi / 21600) := by ring

/-- The latitude of an edge in radians; the outermost ones are the poles. -/
noncomputable def edgeLatitude (rows : Nat) (spacing : ℝ) (j : Nat) : ℝ :=
  if j = 0 then Real.arcsin (-1) else if j = rows then Real.arcsin 1 else edgeAngle rows spacing j

theorem sineEdges_eq_sin {rows j : Nat} (hj : j ≤ rows) (spacing : ℝ) :
    (sineEdges rows spacing).getD j 0 = Real.sin (edgeLatitude rows spacing j) := by
  rw [getD_sineEdges hj]
  unfold edgeLatitude
  split_ifs
  · rw [Real.arcsin_neg_one, Real.sin_neg, Real.sin_pi_div_two]
  · rw [Real.arcsin_one, Real.sin_pi_div_two]
  · rfl

/-- Numbers have no step if each is above the one before it. -/
theorem hasStep_iff {xs : List ℝ} :
    hasStep xs = false ↔ ∀ i, i + 1 < xs.length → xs.getD i 0 < xs.getD (i + 1) 0 := by
  have hsteps : hasStep xs = (differences xs).any (· ≤ 0) := by
    unfold hasStep differences
    rw [List.any_map]
    rfl
  have hlength := length_differences xs
  rw [hsteps, List.any_eq_false]
  constructor
  · intro h i hi
    have hlt := h _ (List.getElem_mem (show i < (differences xs).length by omega))
    rwa [getElem_differences, decide_eq_true_eq, not_le, sub_pos] at hlt
  · intro h d hd
    obtain ⟨i, hi, rfl⟩ := List.mem_iff_getElem.mp hd
    rw [getElem_differences, decide_eq_true_eq, not_le, sub_pos]
    exact h i (by omega)

/-- Rows follow one another if the sines of their edges increase. -/
theorem hasStep_sineEdges_iff {rows : Nat} {spacing : ℝ} :
    hasStep (sineEdges rows spacing).toList = false ↔
      ∀ j < rows, (sineEdges rows spacing).getD j 0 < (sineEdges rows spacing).getD (j + 1) 0 := by
  simp only [hasStep_iff, Array.length_toList, size_sineEdges, getD_toList,
    Nat.add_lt_add_iff_right]

section Room

variable {rows : Nat} {spacing : ℝ} (hspacing : 0 < spacing)
  (hroom : (rows - 2) * spacing < 180 * 60)
include hspacing hroom

theorem abs_edgeAngle_lt {j : Nat} (hsouth : 1 ≤ j) (hnorth : j < rows) :
    |edgeAngle rows spacing j| < Real.pi / 2 := by
  refine (abs_edgeAngle_le hspacing.le hsouth hnorth).trans_lt ?_
  calc (rows - 2) * spacing * (Real.pi / 21600)
      < 180 * 60 * (Real.pi / 21600) := by
        have := Real.pi_pos
        gcongr
    _ = Real.pi / 2 := by ring

theorem edgeLatitude_mem {j : Nat} (hj : j ≤ rows) :
    edgeLatitude rows spacing j ∈ Set.Icc (-(Real.pi / 2)) (Real.pi / 2) := by
  have hpi := Real.pi_pos
  rw [edgeLatitude, Real.arcsin_neg_one, Real.arcsin_one]
  split_ifs with hsouth hnorth
  · exact ⟨le_rfl, by linarith⟩
  · exact ⟨by linarith, le_rfl⟩
  · exact abs_le.mp (abs_edgeAngle_lt hspacing hroom (by omega) (by omega)).le

theorem edgeLatitude_lt {j : Nat} (hj : j < rows) :
    edgeLatitude rows spacing j < edgeLatitude rows spacing (j + 1) := by
  have hpi := Real.pi_pos
  rw [edgeLatitude, edgeLatitude, if_neg (Nat.succ_ne_zero j), if_neg (show ¬ j = rows by omega),
    Real.arcsin_neg_one, Real.arcsin_one]
  split_ifs with hsouth hnorth hnorth
  · linarith
  · exact (abs_lt.mp (abs_edgeAngle_lt hspacing hroom (by omega) (by omega))).1
  · exact (abs_lt.mp (abs_edgeAngle_lt hspacing hroom (by omega) (by omega))).2
  · rw [edgeAngle_real, edgeAngle_real]
    have : 0 < Real.pi / 10800 := by positivity
    gcongr
    linarith

/-- Rows that have room on the sphere follow one another. -/
theorem hasStep_sineEdges : hasStep (sineEdges rows spacing).toList = false := by
  refine hasStep_sineEdges_iff.mpr fun j hlt => ?_
  rw [sineEdges_eq_sin hlt.le, sineEdges_eq_sin hlt]
  exact Real.strictMonoOn_sin (edgeLatitude_mem hspacing hroom hlt.le)
    (edgeLatitude_mem hspacing hroom hlt) (edgeLatitude_lt hspacing hroom hlt)

/-- A grid whose rows have room on the sphere is accepted. -/
theorem ofCounts_of_room {columns : Nat} (hcolumns : 0 < columns) (hrows : 0 < rows) (offset : ℝ)
    {radius : ℝ} (hradius : 0 < radius) : ofCounts columns rows offset (some spacing) radius =
      .ok ⟨columns, rows, offset, spacing, radius⟩ := by
  rw [ofCounts_real hcolumns hrows, if_pos hspacing, if_pos hradius,
    hasStep_sineEdges hspacing hroom, if_neg Bool.false_ne_true]

end Room

/-! ## Regular centres -/

theorem close_self (x : ℝ) : close x x = true := by
  unfold close
  rw [beq_self_eq_true, Bool.or_true]

/-- Numbers from one on by equal steps. -/
def regular (n : Nat) (start step : ℝ) : List ℝ :=
  (List.range n).map fun k : Nat => start + k * step

theorem length_regular (n : Nat) (start step : ℝ) : (regular n start step).length = n := by
  simp [regular]

theorem getD_regular {n i : Nat} (hi : i < n) (start step : ℝ) :
    (regular n start step).getD i 0 = start + i * step := by
  rw [← List.getElem_eq_getD (h := by rwa [length_regular])]
  unfold regular
  rw [List.getElem_map, List.getElem_range]

theorem differences_regular (n : Nat) (start step : ℝ) :
    differences (regular n start step) = List.replicate (n - 1) step := by
  refine List.ext_getElem (by rw [length_differences, length_regular, List.length_replicate])
    fun i hi _ => ?_
  have hlt : i < n - 1 := by rwa [length_differences, length_regular] at hi
  rw [getElem_differences, getD_regular (by omega), getD_regular (by omega),
    List.getElem_replicate]
  push_cast
  ring

theorem median_replicate {n : Nat} (hn : 0 < n) (x : ℝ) : median (List.replicate n x) = x := by
  have hnan : (List.replicate n x).any Scalar.isNaN = false :=
    List.any_eq_false.mpr fun _ _ => Bool.false_ne_true
  have hsort : (List.replicate n x).mergeSort (fun x y => x ≤ y) = List.replicate n x :=
    List.mergeSort_of_pairwise (List.pairwise_replicate.mpr (Or.inr (decide_eq_true le_rfl)))
  have hget {i : Nat} (hi : i < n) : (List.replicate n x).toArray.getD i 0 = x := by
    simp [hi]
  unfold median
  simp only [hnan, hsort, Bool.false_eq_true, if_false, List.size_toArray, List.length_replicate,
    if_neg hn.ne']
  split_ifs
  · exact hget (by omega)
  · rw [hget (by omega), hget (by omega), Scalar.ofNat_real]
    push_cast
    ring

/-- **Ascending latitudes** whose steps, but for the two outermost ones of more than three rows, are
all the same have this spacing. -/
theorem spacingOf_of_steps {lat : List ℝ} {step : ℝ} (hlength : 2 ≤ lat.length)
    (hascending : ∀ i, i + 1 < lat.length → lat.getD i 0 < lat.getD (i + 1) 0)
    (hsteps : ∀ i, i + 1 < lat.length → (3 < lat.length → 1 ≤ i ∧ i + 2 < lat.length) →
      lat.getD (i + 1) 0 - lat.getD i 0 = step) : spacingOf lat = .ok step := by
  have hlengths := length_differences lat
  have hpositive : ¬ (differences lat).any (· ≤ 0) = true := by
    rw [List.any_eq_true]
    rintro ⟨d, hd, hle⟩
    obtain ⟨i, hi, rfl⟩ := List.mem_iff_getElem.mp hd
    rw [decide_eq_true_eq, getElem_differences] at hle
    linarith [hascending i (by omega)]
  obtain ⟨m, hm, hinner⟩ : ∃ m, 0 < m ∧ (if 3 < lat.length then
      ((differences lat).drop 1).dropLast else differences lat) = List.replicate m step := by
    split_ifs with hmany
    · refine ⟨lat.length - 1 - 1 - 1, by omega, List.eq_replicate_iff.mpr ⟨by simp [hlengths], ?_⟩⟩
      intro d hd
      obtain ⟨i, hi, rfl⟩ := List.mem_iff_getElem.mp hd
      rw [List.length_dropLast, List.length_drop, hlengths] at hi
      rw [List.getElem_dropLast, List.getElem_drop, getElem_differences]
      exact hsteps _ (by omega) fun _ => ⟨by omega, by omega⟩
    · refine ⟨lat.length - 1, by omega, List.eq_replicate_iff.mpr ⟨hlengths, ?_⟩⟩
      intro d hd
      obtain ⟨i, hi, rfl⟩ := List.mem_iff_getElem.mp hd
      rw [getElem_differences]
      exact hsteps i (by omega) fun h => absurd h hmany
  have hregular : (List.replicate m step).all (close · step) = true :=
    List.all_eq_true.mpr fun x hx => by rw [List.eq_of_mem_replicate hx, close_self]
  unfold spacingOf
  simp only
  rw [if_neg (by omega), if_neg hpositive, hinner, median_replicate hm, if_pos hregular]
  rfl

theorem spacingOf_regular {n : Nat} (hn : 2 ≤ n) (start : ℝ) {step : ℝ} (hstep : 0 < step) :
    spacingOf (regular n start step) = .ok step := by
  have hdifference : ∀ i, i + 1 < n → (regular n start step).getD (i + 1) 0 -
      (regular n start step).getD i 0 = step := fun i hi => by
    rw [getD_regular hi, getD_regular (by omega)]
    push_cast
    ring
  refine spacingOf_of_steps (by rwa [length_regular]) (fun i hi => ?_) fun i hi _ => ?_
  · rw [length_regular] at hi
    linarith [hdifference i hi]
  · rw [length_regular] at hi
    exact hdifference i hi

theorem offsetOf_regular {n : Nat} (hn : 0 < n) (start : ℝ) :
    offsetOf (regular n start (360 / n)) =
      .ok (modulo ((start - 1 / 2 * (360 / n) + 180) / (360 / n)) n) := by
  have hregular : (List.replicate (n - 1) (360 / n : ℝ)).all (close · (360 / n)) = true :=
    List.all_eq_true.mpr fun x hx => by rw [List.eq_of_mem_replicate hx, close_self]
  have hhead : (regular n start (360 / n)).headD 0 = start := by
    rw [List.headD_eq_head?_getD, List.head?_eq_getElem?, ← List.getD_eq_getElem?_getD,
      getD_regular hn]
    simp
  unfold offsetOf
  simp only [length_regular, differences_regular, if_neg hn.ne', hhead, Scalar.ofNat_real,
    Scalar.ratio_real]
  rw [if_neg (by simp [hregular])]
  push_cast
  rfl

/-- **Regular centres are accepted**, wherever the rows lie. -/
theorem ofCentres_regular {rows columns : Nat} (hrows : 2 ≤ rows) (hcolumns : 0 < columns)
    (south west : ℝ) {step radius : ℝ} (hstep : 0 < step) (hroom : (rows - 2) * step < 180)
    (hradius : 0 < radius) :
    ofCentres (regular rows south step) (regular columns west (360 / columns)) radius =
      .ok ⟨columns, rows, modulo ((west - 1 / 2 * (360 / columns) + 180) / (360 / columns)) columns,
        step * 60, radius⟩ := by
  have hspacing : 0 < step * 60 := by positivity
  unfold ofCentres
  rw [offsetOf_regular hcolumns, bind_ok, spacingOf_regular hrows south hstep, bind_ok,
    length_regular, length_regular, Scalar.ofNat_real, Nat.cast_ofNat]
  exact ofCounts_of_room hspacing (by linarith) hcolumns (by omega) _ hradius

end Regrid.LatLon

import Regrid.Proofs.LatLon.RoundTrip

/-!
# Rows that overrun the poles

A grid is accepted if the sines of the latitudes between its rows increase
(`HntrGrid.__post_init__`). A sine does not tell a latitude from others that lie a turn away or
behind a pole. So rows that overrun the poles are accepted with some spacings (`Overlooked`), and
rejected with all others (`ofCounts_overlooked`): those spacings are told apart from smaller ones
neither by the sines (`sineEdges_alias`) nor, if the two outermost edges have passed the poles and
no others, by their order (`follow_iff`).
-/

namespace Regrid.LatLon

open Trigonometry

variable {rows : Nat} {spacing : ℝ}

/-! ## Edges between the poles -/

/-- The rows follow one another if the sines of their edges increase. -/
def Follow (rows : Nat) (spacing : ℝ) : Prop :=
  ∀ j < rows, (sineEdges rows spacing).getD j 0 < (sineEdges rows spacing).getD (j + 1) 0

/-- The edges between rows, in degrees, lie between the poles. -/
structure Inside (rows : Nat) (spacing : ℝ) : Prop where
  edge : ∀ j : Nat, 0 < j → j < rows → |((j : ℝ) - rows / 2) * (spacing / 60)| < 90

theorem inside_iff (hspacing : 0 < spacing) :
    Inside rows spacing ↔ (rows - 2) * spacing < 180 * 60 := by
  have hpi := Real.pi_pos
  have hdegrees (j : Nat) : |((j : ℝ) - rows / 2) * (spacing / 60)| < 90 ↔
      |edgeAngle rows spacing j| < Real.pi / 2 := by
    have hangle : edgeAngle rows spacing j =
        ((j : ℝ) - rows / 2) * (spacing / 60) * (Real.pi / 180) := by
      rw [edgeAngle_real]
      ring
    rw [hangle, abs_mul _ (Real.pi / 180), abs_of_pos (by positivity : 0 < Real.pi / 180),
      show Real.pi / 2 = 90 * (Real.pi / 180) by ring, mul_lt_mul_iff_left₀ (by positivity)]
  constructor
  · intro h
    exact room_of_edges (g := ⟨1, rows, 0, spacing, 1⟩) hspacing
      fun j hsouth hnorth => (hdegrees j).mp (h.edge j hsouth hnorth)
  · intro h
    exact ⟨fun j hsouth hnorth => (hdegrees j).mpr (abs_edgeAngle_lt hspacing h hsouth hnorth)⟩

/-! ## Sines that are the same -/

/-- Half of the angle between two edges. -/
noncomputable def halfStep (spacing : ℝ) : ℝ := spacing * (Real.pi / 21600)

theorem edgeAngle_eq_halfStep (rows : Nat) (spacing : ℝ) (j : Nat) :
    edgeAngle rows spacing j = (2 * j - rows) * halfStep spacing := by
  rw [edgeAngle_real]
  unfold halfStep
  ring

/-- Half steps make up a right angle as whole ones make up half a turn. -/
theorem mul_halfStep_eq_right {x : ℝ} :
    x * halfStep spacing = Real.pi / 2 ↔ x * spacing = 180 * 60 := by
  have hunit : Real.pi / 21600 ≠ 0 := div_ne_zero Real.pi_ne_zero (by norm_num)
  rw [halfStep, ← mul_assoc, show Real.pi / 2 = 180 * 60 * (Real.pi / 21600) by ring,
    mul_left_inj' hunit]

theorem mul_halfStep_lt_right {x : ℝ} :
    x * halfStep spacing < Real.pi / 2 ↔ x * spacing < 180 * 60 := by
  have hunit : 0 < Real.pi / 21600 := div_pos Real.pi_pos (by norm_num)
  rw [halfStep, ← mul_assoc, show Real.pi / 2 = 180 * 60 * (Real.pi / 21600) by ring,
    mul_lt_mul_iff_left₀ hunit]

/-- The sines at all edges are the same for two spacings: there are whole turns between them, or
half turns for an even number of rows, or one lies behind a pole as far as the other in front of it
for an odd one. -/
def Alias (rows : Nat) (spacing other : ℝ) : Prop :=
  ∃ turns : Int, (spacing = other + 360 * 60 * turns ∧ (Even rows ∨ Even turns)) ∨
    (spacing = 360 * 60 * turns - other ∧ Odd rows ∧ Odd turns)

theorem sineEdges_alias {other : ℝ} (h : Alias rows spacing other) :
    sineEdges rows spacing = sineEdges rows other := by
  refine sineEdges_congr fun j _ _ => ?_
  rw [sin_real, sin_real, edgeAngle_eq_halfStep, edgeAngle_eq_halfStep]
  obtain ⟨turns, ⟨rfl, heven⟩ | ⟨rfl, hrows, hturns⟩⟩ := h
  · have hwhole : Even ((2 * j - rows : Int) * turns) := by
      rcases heven with hrows | hturns
      · exact (((even_two_mul _).sub (by exact_mod_cast hrows)).mul_right _)
      · exact hturns.mul_left _
    obtain ⟨k, hk⟩ := hwhole
    have hangle : (2 * j - rows) * halfStep (other + 360 * 60 * turns) =
        (2 * j - rows) * halfStep other + k * (2 * Real.pi) := by
      have hk : ((2 * j - rows) * turns : ℝ) = k + k := by exact_mod_cast hk
      unfold halfStep
      linear_combination Real.pi * hk
    rw [hangle, Real.sin_add_int_mul_two_pi]
  · have hwhole : Odd ((2 * j - rows : Int) * turns) :=
      ((even_two_mul _).sub_odd (by exact_mod_cast hrows)).mul hturns
    obtain ⟨k, hk⟩ := hwhole
    have hangle : (2 * j - rows) * halfStep (360 * 60 * turns - other) =
        Real.pi - (2 * j - rows) * halfStep other + k * (2 * Real.pi) := by
      have hk : ((2 * j - rows) * turns : ℝ) = 2 * k + 1 := by exact_mod_cast hk
      unfold halfStep
      linear_combination Real.pi * hk
    rw [hangle, Real.sin_add_int_mul_two_pi, Real.sin_pi_sub]

/-! ## Sines that increase -/

theorem getD_sineEdges_inner {j : Nat} (hsouth : 1 ≤ j) (hnorth : j < rows) :
    (sineEdges rows spacing).getD j 0 = Real.sin ((2 * j - rows) * halfStep spacing) := by
  rw [getD_sineEdges hnorth.le, if_neg (by omega), if_neg hnorth.ne, edgeAngle_eq_halfStep,
    sin_real]

/-- The northernmost edge between two rows. -/
theorem getD_sineEdges_last (hrows : 2 ≤ rows) :
    (sineEdges rows spacing).getD (rows - 1) 0 = Real.sin ((rows - 2) * halfStep spacing) := by
  rw [getD_sineEdges_inner (by omega) (by omega), Nat.cast_sub (by omega)]
  congr 1
  push_cast
  ring

/-- The southernmost one lies as far south. -/
theorem getD_sineEdges_first (hrows : 2 ≤ rows) :
    (sineEdges rows spacing).getD 1 0 = -Real.sin ((rows - 2) * halfStep spacing) := by
  rw [getD_sineEdges_inner le_rfl (by omega), ← Real.sin_neg]
  congr 1
  push_cast
  ring

theorem getD_sineEdges_south : (sineEdges rows spacing).getD 0 0 = -1 := by
  rw [getD_sineEdges (Nat.zero_le _), if_pos rfl]

theorem getD_sineEdges_north (hrows : 0 < rows) : (sineEdges rows spacing).getD rows 0 = 1 := by
  rw [getD_sineEdges le_rfl, if_neg hrows.ne', if_pos rfl]

/-- The sine goes on from one edge to the next one by the cosine in the middle. -/
theorem sine_step (j : Nat) :
    Real.sin ((2 * (j + 1 : Nat) - rows) * halfStep spacing) -
        Real.sin ((2 * j - rows) * halfStep spacing) =
      2 * Real.sin (halfStep spacing) * Real.cos ((2 * j + 1 - rows) * halfStep spacing) := by
  have hnext : (2 * (j + 1 : Nat) - rows) * halfStep spacing =
      (2 * j + 1 - rows) * halfStep spacing + halfStep spacing := by
    push_cast
    ring
  have hlast : (2 * j - rows) * halfStep spacing =
      (2 * j + 1 - rows) * halfStep spacing - halfStep spacing := by
    ring
  rw [hnext, hlast, Real.sin_add, Real.sin_sub]
  ring

theorem sin_lt_one {x : ℝ} (hpos : 0 < x) (hpi : x < Real.pi) (hne : x ≠ Real.pi / 2) :
    Real.sin x < 1 := by
  refine (Real.sin_le_one x).lt_of_ne fun hone => hne ?_
  have hcos : Real.cos x = 0 := by
    have hsquares := Real.sin_sq_add_cos_sq x
    rw [hone] at hsquares
    exact pow_eq_zero_iff two_ne_zero |>.mp (by linarith)
  have hright : Real.pi / 2 ∈ Set.Icc 0 Real.pi := ⟨by linarith, by linarith⟩
  exact Real.injOn_cos ⟨hpos.le, hpi.le⟩ hright (hcos.trans Real.cos_pi_div_two.symm)

section Quarter

variable (hspacing : 0 < spacing) (hhalf : spacing ≤ 180 * 60)
include hspacing hhalf

theorem halfStep_mem : 0 < halfStep spacing ∧ halfStep spacing ≤ Real.pi / 2 := by
  have hpi := Real.pi_pos
  unfold halfStep
  constructor
  · positivity
  · nlinarith

theorem sin_halfStep_pos : 0 < Real.sin (halfStep spacing) := by
  obtain ⟨hpos, hquarter⟩ := halfStep_mem hspacing hhalf
  exact Real.sin_pos_of_pos_of_lt_pi hpos (by linarith [Real.pi_pos])

/-- If rows follow one another, all but the outermost edges lie between the poles. Going north, an
edge that overran the pole would be the first one, and a step leads at most half a turn on. -/
theorem Follow.reach (h : Follow rows spacing) {j : Nat} (hsouth : 1 ≤ j) (hnorth : j + 1 < rows) :
    (2 * j + 1 - rows) * halfStep spacing < Real.pi / 2 := by
  obtain ⟨hpos, hquarter⟩ := halfStep_mem hspacing hhalf
  have hsin := sin_halfStep_pos hspacing hhalf
  have hcos : ∀ k : Nat, 1 ≤ k → k + 1 < rows →
      0 < Real.cos ((2 * k + 1 - rows) * halfStep spacing) := by
    intro k hsouth hnorth
    have hstep := sub_pos.mpr (h k (by omega))
    rw [getD_sineEdges_inner hsouth (by omega), getD_sineEdges_inner (by omega) hnorth,
      sine_step] at hstep
    exact pos_of_mul_pos_right hstep (by positivity)
  induction j, hsouth using Nat.le_induction with
  | base =>
    have hrows : (3 : ℝ) ≤ rows := by exact_mod_cast hnorth
    have hpi := Real.pi_pos
    push_cast
    nlinarith
  | succ j hsouth ih =>
    have hlast := ih (by omega)
    by_contra hover
    refine (hcos (j + 1) (by omega) hnorth).not_ge
      (Real.cos_nonpos_of_pi_div_two_le_of_le (not_lt.mp hover) ?_)
    push_cast
    linarith

/-- If all edges but the outermost two lie between the poles, and these two not on them, then rows
follow one another. -/
theorem follow_of_reach (hrows : 3 ≤ rows) (hreach : (rows - 3) * spacing < 180 * 60)
    (hpole : (rows - 2) * spacing ≠ 180 * 60) : Follow rows spacing := by
  have hpi := Real.pi_pos
  have hrows' : (3 : ℝ) ≤ rows := by exact_mod_cast hrows
  obtain ⟨hpos, hquarter⟩ := halfStep_mem hspacing hhalf
  have hinner := mul_halfStep_lt_right.mpr hreach
  have houter : Real.sin ((rows - 2) * halfStep spacing) < 1 :=
    sin_lt_one (by nlinarith) (by nlinarith) (mt mul_halfStep_eq_right.mp hpole)
  intro j hj
  obtain rfl | hsouth := Nat.eq_zero_or_pos j
  · rw [getD_sineEdges_south, getD_sineEdges_first (by omega)]
    linarith
  by_cases hnorth : j + 1 < rows
  · have hsouth' : (1 : ℝ) ≤ j := by exact_mod_cast hsouth
    have hnorth' : (j : ℝ) + 2 ≤ rows := by exact_mod_cast hnorth
    have hcos : 0 < Real.cos ((2 * j + 1 - rows) * halfStep spacing) :=
      Real.cos_pos_of_mem_Ioo ⟨by nlinarith, by nlinarith⟩
    have hsin := sin_halfStep_pos hspacing hhalf
    rw [getD_sineEdges_inner hsouth (by omega), getD_sineEdges_inner (by omega) hnorth, ← sub_pos,
      sine_step]
    positivity
  · obtain rfl : j = rows - 1 := by omega
    rw [getD_sineEdges_last (by omega), Nat.sub_add_cancel (by omega),
      getD_sineEdges_north (by omega)]
    exact houter

/-- **Rows that follow one another** with a spacing up to half a turn: all edges but the outermost
two lie between the poles, and these two not on them. -/
theorem follow_iff (hrows : 3 ≤ rows) : Follow rows spacing ↔
    (rows - 3) * spacing < 180 * 60 ∧ (rows - 2) * spacing ≠ 180 * 60 := by
  refine ⟨fun h => ⟨?_, fun hpole => ?_⟩, fun ⟨hreach, hpole⟩ =>
    follow_of_reach hspacing hhalf hrows hreach hpole⟩
  · have hreach := h.reach hspacing hhalf (j := rows - 2) (by omega) (by omega)
    rw [Nat.cast_sub (by omega)] at hreach
    refine mul_halfStep_lt_right.mp ((congrArg (· * halfStep spacing) ?_).trans_lt hreach)
    push_cast
    ring
  · have hlast := h (rows - 1) (by omega)
    rw [getD_sineEdges_last (by omega), mul_halfStep_eq_right.mpr hpole, Real.sin_pi_div_two,
      Nat.sub_add_cancel (by omega), getD_sineEdges_north (by omega)] at hlast
    exact lt_irrefl _ hlast

end Quarter

/-! ## Any spacing -/

theorem mem_of_sin_pos {x : ℝ} (hnonneg : 0 ≤ x) (hturn : x < 2 * Real.pi) (hsin : 0 < Real.sin x) :
    0 < x ∧ x < Real.pi := by
  constructor
  · refine hnonneg.lt_of_ne fun hzero => ?_
    rw [← hzero, Real.sin_zero] at hsin
    exact lt_irrefl _ hsin
  · by_contra hpi
    have hbehind :=
      Real.sin_nonneg_of_nonneg_of_le_pi (x := x - Real.pi) (by linarith) (by linarith)
    rw [Real.sin_sub_pi] at hbehind
    linarith

/-- A spacing less whole periods, and where it is if the sine of its angle is positive. -/
theorem exists_rest (spacing : ℝ) {period : Nat} (hperiod : 0 < period)
    (hsin : 0 < Real.sin (spacing * (2 * Real.pi / period))) :
    ∃ (rest : ℝ) (turns : Int), spacing = rest + period * turns ∧ 0 < rest ∧ 2 * rest < period := by
  have hpi := Real.pi_pos
  have hperiod' : (0 : ℝ) < period := Nat.cast_pos.mpr hperiod
  have hunit : 0 < 2 * Real.pi / period := by positivity
  obtain ⟨turns, hturns⟩ := exists_modulo spacing period
  have hnonneg := modulo_nonneg spacing hperiod
  have hlt := modulo_lt spacing hperiod
  generalize modulo spacing period = rest at hturns hnonneg hlt
  have hangle : spacing * (2 * Real.pi / period) =
      rest * (2 * Real.pi / period) + turns * (2 * Real.pi) := by
    rw [hturns]
    field_simp
  rw [hangle, Real.sin_add_int_mul_two_pi] at hsin
  have hwhole : (period : ℝ) * (2 * Real.pi / period) = 2 * Real.pi := by field_simp
  obtain ⟨hpos, hhalf⟩ := mem_of_sin_pos (by positivity)
    ((mul_lt_mul_of_pos_right hlt hunit).trans_eq hwhole) hsin
  refine ⟨rest, turns, hturns, pos_of_mul_pos_left hpos hunit.le, ?_⟩
  have hdouble : 2 * rest * (2 * Real.pi / period) < period * (2 * Real.pi / period) := by
    rw [hwhole]
    linarith
  exact lt_of_mul_lt_mul_right hdouble hunit.le

/-- Of an even number of rows, the one north of the equator tells the spacing up to half turns. -/
theorem exists_alias_even {k : Nat} (hk : rows = 2 * k) (hrows : 3 ≤ rows)
    (h : Follow rows spacing) :
    ∃ other, Alias rows spacing other ∧ 0 < other ∧ other ≤ 180 * 60 := by
  have hstep := h k (by omega)
  rw [getD_sineEdges_inner (by omega) (by omega), getD_sineEdges_inner (by omega) (by omega),
    hk, show (2 * (k : ℝ) - (2 * k : Nat)) * halfStep spacing = 0 by push_cast; ring,
    Real.sin_zero] at hstep
  have hangle : (2 * ((k + 1 : Nat) : ℝ) - (2 * k : Nat)) * halfStep spacing =
      spacing * (2 * Real.pi / (360 * 60 : Nat)) := by
    unfold halfStep
    push_cast
    ring
  rw [hangle] at hstep
  obtain ⟨rest, turns, hturns, hpos, hhalf⟩ := exists_rest spacing (by norm_num) hstep
  push_cast at hturns hhalf
  exact ⟨rest, ⟨turns, .inl ⟨by linarith, .inl ⟨k, by omega⟩⟩⟩, hpos, by linarith⟩

/-- Of an odd number of rows, the one across the equator tells it up to whole turns, and does not
tell on which side of a right angle half of it is. -/
theorem exists_alias_odd {k : Nat} (hk : rows = 2 * k + 1) (hrows : 3 ≤ rows)
    (h : Follow rows spacing) :
    ∃ other, Alias rows spacing other ∧ 0 < other ∧ other ≤ 180 * 60 := by
  have hstep := h k (by omega)
  rw [getD_sineEdges_inner (by omega) (by omega), getD_sineEdges_inner (by omega) (by omega),
    hk, show (2 * (k : ℝ) - (2 * k + 1 : Nat)) * halfStep spacing = -halfStep spacing by
      push_cast; ring,
    show (2 * ((k + 1 : Nat) : ℝ) - (2 * k + 1 : Nat)) * halfStep spacing = halfStep spacing by
      push_cast; ring, Real.sin_neg] at hstep
  have hangle : spacing * (2 * Real.pi / (720 * 60 : Nat)) = halfStep spacing := by
    unfold halfStep
    push_cast
    ring
  have hsin : 0 < Real.sin (spacing * (2 * Real.pi / (720 * 60 : Nat))) := by
    rw [hangle]
    linarith
  obtain ⟨rest, turns, hturns, hpos, hhalf⟩ := exists_rest spacing (by norm_num) hsin
  push_cast at hturns hhalf
  by_cases hright : rest ≤ 180 * 60
  · refine ⟨rest, ⟨2 * turns, .inl ⟨?_, .inr (even_two_mul _)⟩⟩, hpos, hright⟩
    push_cast
    linarith
  · refine ⟨360 * 60 - rest, ⟨2 * turns + 1, .inr ⟨?_, ⟨k, hk⟩, odd_two_mul_add_one _⟩⟩, ?_, ?_⟩
    · push_cast
      linarith
    · linarith
    · linarith

/-- **Rows that follow one another** do so with a spacing up to half a turn. One row in the middle
tells with which. -/
theorem exists_alias (hrows : 3 ≤ rows) (h : Follow rows spacing) :
    ∃ other, Alias rows spacing other ∧ 0 < other ∧ other ≤ 180 * 60 := by
  obtain ⟨k, hk | hk⟩ := Nat.even_or_odd' rows
  · exact exists_alias_even hk hrows h
  · exact exists_alias_odd hk hrows h

/-! ## Grids that are accepted -/

/-- Rows overrun the poles and are accepted all the same. With the spacing, or with one that has the
same sines, the outermost edges have passed the poles, and no others have. -/
structure Overlooked (rows : Nat) (spacing : ℝ) : Prop where
  overrun : 180 * 60 < (rows - 2) * spacing
  other : ∃ other, Alias rows spacing other ∧ 0 < other ∧ other ≤ 180 * 60 ∧
    (rows - 3) * other < 180 * 60 ∧ (rows - 2) * other ≠ 180 * 60

theorem three_le_of_overrun (hspacing : 0 < spacing) (h : 180 * 60 ≤ (rows - 2) * spacing) :
    3 ≤ rows := by
  by_contra hrows
  have hrows : (rows : ℝ) ≤ 2 := by exact_mod_cast Nat.lt_succ_iff.mp (not_le.mp hrows)
  nlinarith

theorem follow_of_alias (hrows : 3 ≤ rows) {other : ℝ} (halias : Alias rows spacing other)
    (hpos : 0 < other) (hhalf : other ≤ 180 * 60) : Follow rows spacing ↔
      (rows - 3) * other < 180 * 60 ∧ (rows - 2) * other ≠ 180 * 60 := by
  rw [← follow_iff hpos hhalf hrows]
  unfold Follow
  rw [sineEdges_alias halias]

/-- Of spacings up to half a turn the ones between two bounds are overlooked. -/
theorem overlooked_iff (hspacing : 0 < spacing) (hhalf : spacing ≤ 180 * 60) :
    Overlooked rows spacing ↔
      180 * 60 < (rows - 2) * spacing ∧ (rows - 3) * spacing < 180 * 60 := by
  have hself : Alias rows spacing spacing :=
    ⟨0, .inl ⟨by rw [Int.cast_zero, mul_zero, add_zero], .inr ⟨0, rfl⟩⟩⟩
  constructor
  · rintro ⟨hover, other, halias, hpos, hother, hreach⟩
    have hrows := three_le_of_overrun hspacing hover.le
    have hfollow := (follow_of_alias hrows halias hpos hother).mpr hreach
    exact ⟨hover, ((follow_iff hspacing hhalf hrows).mp hfollow).1⟩
  · rintro ⟨hover, hreach⟩
    exact ⟨hover, spacing, hself, hspacing, hhalf, hreach, hover.ne'⟩

/-- **Rows follow one another** if their edges lie between the poles, or are overlooked. -/
theorem follow_iff_inside (hspacing : 0 < spacing) :
    Follow rows spacing ↔ Inside rows spacing ∨ Overlooked rows spacing := by
  rw [inside_iff hspacing]
  constructor
  · intro h
    refine or_iff_not_imp_left.mpr fun hroom => ?_
    have hover := not_lt.mp hroom
    have hrows := three_le_of_overrun hspacing hover
    have hpole : (rows - 2) * spacing ≠ 180 * 60 := fun hpole => by
      have hrows' : (3 : ℝ) ≤ rows := by exact_mod_cast hrows
      have hhalf : spacing ≤ 180 * 60 := by nlinarith
      exact ((follow_iff hspacing hhalf hrows).mp h).2 hpole
    obtain ⟨other, halias, hpos, hhalf⟩ := exists_alias hrows h
    exact ⟨hover.lt_of_ne' hpole, other, halias, hpos, hhalf,
      (follow_of_alias hrows halias hpos hhalf).mp h⟩
  · rintro (hroom | ⟨hover, other, halias, hpos, hhalf, hreach⟩)
    · exact hasStep_sineEdges_iff.mp (hasStep_sineEdges hspacing hroom)
    · exact (follow_of_alias (three_le_of_overrun hspacing hover.le) halias hpos hhalf).mpr hreach

section Counts

variable {columns : Nat} (hcolumns : 0 < columns) (hrows : 0 < rows) (offset : ℝ)
  (hspacing : 0 < spacing) {radius : ℝ} (hradius : 0 < radius)
include hcolumns hrows hspacing hradius

theorem ofCounts_of_follow (h : Follow rows spacing) :
    ofCounts columns rows offset (some spacing) radius =
      .ok ⟨columns, rows, offset, spacing, radius⟩ := by
  rw [ofCounts_real hcolumns hrows, if_pos hspacing, if_pos hradius, hasStep_sineEdges_iff.mpr h,
    if_neg Bool.false_ne_true]

/-- **Rows that overrun the poles** are rejected if their spacing is not one that is overlooked, and
accepted if it is. Rows between the poles are accepted. Of spacings up to half a turn those are
overlooked that bring the two outermost edges behind the poles, and no others to them. -/
theorem ofCounts_overlooked :
    (ofCounts columns rows offset (some spacing) radius =
        .ok ⟨columns, rows, offset, spacing, radius⟩ ↔
      Inside rows spacing ∨ Overlooked rows spacing) ∧
    (¬ Inside rows spacing → ¬ Overlooked rows spacing →
      ofCounts columns rows offset (some spacing) radius =
        .error (.malformedGrid (.overrun rows (Scalar.toFloat spacing)))) ∧
    (Overlooked rows spacing → ¬ Inside rows spacing) ∧
    (spacing ≤ 180 * 60 → (Overlooked rows spacing ↔
      180 * 60 < (rows - 2) * spacing ∧ (rows - 3) * spacing < 180 * 60)) := by
  have hrejected : ¬ Follow rows spacing → ofCounts columns rows offset (some spacing) radius =
      .error (.malformedGrid (.overrun rows (Scalar.toFloat spacing))) := fun h => by
    have hstep := Bool.of_not_eq_false (mt hasStep_sineEdges_iff.mp h)
    rw [ofCounts_real hcolumns hrows, if_pos hspacing, if_pos hradius, if_pos hstep]
  rw [← follow_iff_inside hspacing]
  refine ⟨⟨fun h => ?_, ofCounts_of_follow hcolumns hrows offset hspacing hradius⟩,
    fun hinside hseen => hrejected fun h => ?_, fun hover hinside => ?_, overlooked_iff hspacing⟩
  · by_contra hnot
    rw [hrejected hnot] at h
    cases h
  · exact ((follow_iff_inside hspacing).mp h).elim hinside hseen
  · exact hover.overrun.not_gt ((inside_iff hspacing).mp hinside)

end Counts

/-- Four rows of 90 degrees reach the poles with all of their edges, and are rejected. -/
theorem ofCounts_overlooked_quarters : ofCounts 4 4 (0 : ℝ) (some (90 * 60)) 1 =
    .error (.malformedGrid (.overrun 4 (Scalar.toFloat (90 * 60 : ℝ)))) := by
  have hspacing : (0 : ℝ) < 90 * 60 := by norm_num
  have hfour : 0 < 4 := by simp
  obtain ⟨-, hrejected, -, hseen⟩ := ofCounts_overlooked hfour hfour (0 : ℝ) hspacing one_pos
  refine hrejected ?_ ?_
  · rw [inside_iff hspacing]
    norm_num
  · rw [hseen (by norm_num)]
    norm_num

/-- **Rows that overrun the poles are accepted**: four rows of 100 degrees, and three rows of 740
degrees, whose edges are those of rows of 20 degrees but for a whole turn. -/
theorem ofCounts_overrun :
    ofCounts 4 4 0 (some (100 * 60)) 1 = .ok (⟨4, 4, 0, 100 * 60, 1⟩ : LatLon ℝ) ∧
    ¬ Inside 4 (100 * 60) ∧
    ofCounts 4 3 0 (some (740 * 60)) 1 = .ok (⟨4, 3, 0, 740 * 60, 1⟩ : LatLon ℝ) ∧
    ¬ Inside 3 (740 * 60) := by
  have hfour : 0 < 4 := by simp
  have hspacing : (0 : ℝ) < 100 * 60 := by norm_num
  have hover : Overlooked 4 (100 * 60) :=
    (overlooked_iff hspacing (by norm_num)).mpr (by norm_num)
  have hwrongUnit : (0 : ℝ) < 740 * 60 := by norm_num
  have halias : Alias 3 (740 * 60) (20 * 60) :=
    ⟨2, .inl ⟨by norm_num, .inr even_two⟩⟩
  have hwrapped : Overlooked 3 (740 * 60) := by
    refine ⟨by norm_num, 20 * 60, halias, ?_⟩
    norm_num
  refine ⟨?_, ?_, ?_, ?_⟩
  · exact ofCounts_of_follow hfour hfour 0 hspacing one_pos
      ((follow_iff_inside hspacing).mpr (.inr hover))
  · rw [inside_iff hspacing]
    norm_num
  · exact ofCounts_of_follow hfour (by simp) 0 hwrongUnit one_pos
      ((follow_iff_inside hwrongUnit).mpr (.inr hwrapped))
  · rw [inside_iff hwrongUnit]
    norm_num

end Regrid.LatLon

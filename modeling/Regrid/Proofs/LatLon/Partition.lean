import Regrid.Proofs.Exact
import Regrid.Proofs.Range
import Regrid.LatLon.Grid

/-!
# Lattices that partition the sphere

`Lattice.Partition` is what the numbers of a grid are accepted for: there are columns, and the bands
follow one another from pole to pole. `partition_of_ofCounts` says that acceptance establishes it,
whatever the sine is. Everything about remapping is proved from it alone, so for any increasing
sequence of edges.
-/

namespace Regrid

namespace Lattice

variable {l : Lattice Rat}

/-- The lattice divides the sphere into columns and bands. -/
structure Partition (l : Lattice Rat) : Prop where
  columns_pos : 0 < l.columns
  rows_pos : 0 < l.rows
  south : l.edge 0 = -1
  north : l.edge l.rows = 1
  increasing : ∀ j, j < l.rows → l.edge j < l.edge (j + 1)

instance (l : Lattice Rat) : Decidable l.Partition :=
  decidable_of_iff (0 < l.columns ∧ 0 < l.rows ∧ l.edge 0 = -1 ∧ l.edge l.rows = 1 ∧
      ∀ j, j < l.rows → l.edge j < l.edge (j + 1))
    ⟨fun ⟨h1, h2, h3, h4, h5⟩ => ⟨h1, h2, h3, h4, h5⟩,
      fun ⟨h1, h2, h3, h4, h5⟩ => ⟨h1, h2, h3, h4, h5⟩⟩

namespace Partition

theorem edge_le (h : l.Partition) {i j : Nat} (hij : i ≤ j) (hj : j ≤ l.rows) :
    l.edge i ≤ l.edge j := by
  induction j, hij using Nat.le_induction with
  | base => exact le_refl _
  | succ j hij ih => exact (ih (by omega)).trans (h.increasing j hj).le

theorem edge_lt (h : l.Partition) {i j : Nat} (hij : i < j) (hj : j ≤ l.rows) :
    l.edge i < l.edge j :=
  (h.increasing i (by omega)).trans_le (h.edge_le hij hj)

theorem band_pos (h : l.Partition) {j : Nat} (hj : j < l.rows) : 0 < l.band j :=
  sub_pos.mpr (h.increasing j hj)

end Partition

/-- The edges as a ruler of the bands, which stands still beyond the poles. -/
def ruler (l : Lattice Rat) (k : Int) : Rat := l.edge (min k.toNat l.rows)

theorem ruler_natCast {j : Nat} (hj : j ≤ l.rows) : l.ruler j = l.edge j := by
  rw [ruler, Int.toNat_natCast, Nat.min_eq_left hj]

theorem Partition.ruler_mono (h : l.Partition) : Monotone l.ruler := by
  intro a b hab
  exact h.edge_le (by omega) (Nat.min_le_right _ _)

/-! ## Cells -/

theorem div_cell {n i : Nat} (hi : i < n) (j : Nat) : (j * n + i) / n = j := by
  rw [Nat.mul_comm, Nat.mul_add_div (by omega), Nat.div_eq_of_lt hi, Nat.add_zero]

theorem mod_cell {n i : Nat} (hi : i < n) (j : Nat) : (j * n + i) % n = i := by
  rw [Nat.mul_add_mod_self_right, Nat.mod_eq_of_lt hi]

/-- Cell numbers are pairs of a row and a column. -/
theorem cell_eq_iff {n i i' j j' : Nat} (hi : i < n) (hi' : i' < n) :
    j * n + i = j' * n + i' ↔ j = j' ∧ i = i' := by
  constructor
  · intro h
    have hj : j = j' := by rw [← div_cell hi j, h, div_cell hi' j']
    exact ⟨hj, by rw [hj] at h; omega⟩
  · rintro ⟨rfl, rfl⟩
    rfl

theorem cell_lt_size {α : Type} {l : Lattice α} {i j : Nat} (hj : j < l.rows)
    (hi : i < l.columns) : j * l.columns + i < l.size :=
  calc
    _ < (j + 1) * l.columns := by rw [Nat.succ_mul]; omega
    _ ≤ l.size := Nat.mul_le_mul_right _ hj

theorem exists_cell {c : Nat} (hc : c < l.size) :
    ∃ j i, j < l.rows ∧ i < l.columns ∧ c = j * l.columns + i := by
  have hpos : 0 < l.columns := by
    rcases Nat.eq_zero_or_pos l.columns with h | h
    · rw [size, h] at hc
      omega
    · exact h
  exact ⟨c / l.columns, c % l.columns, Nat.div_lt_of_lt_mul (by rw [Nat.mul_comm]; exact hc),
    Nat.mod_lt _ hpos, (Nat.div_add_mod' c l.columns).symm⟩

/-- The band of a cell is not empty. -/
theorem Partition.band_cell_ne_zero (h : l.Partition) {c : Nat} (hc : c < l.size) :
    l.band (c / l.columns) ≠ 0 := by
  obtain ⟨j, i, hj, hi, rfl⟩ := exists_cell hc
  rw [div_cell hi]
  exact (h.band_pos hj).ne'

/-! ## Areas -/

theorem length_rowBlocks {α : Type} (m n : Nat) (f : Nat → α) :
    ((List.range m).flatMap fun j => List.replicate n (f j)).length = m * n := by
  induction m with
  | zero => simp
  | succ m ih => simp [List.range_succ, ih, Nat.succ_mul]

theorem getElem?_rowBlocks {α : Type} {m n i j : Nat} (f : Nat → α) (hj : j < m) (hi : i < n) :
    ((List.range m).flatMap fun j => List.replicate n (f j))[j * n + i]? = some (f j) := by
  induction m with
  | zero => omega
  | succ m ih =>
    rw [List.range_succ, List.flatMap_append, List.flatMap_singleton]
    rcases Nat.lt_or_ge j m with hlt | hge
    · have : j * n + i < m * n :=
        calc
          _ < (j + 1) * n := by rw [Nat.succ_mul]; omega
          _ ≤ m * n := Nat.mul_le_mul_right n hlt
      rw [List.getElem?_append_left (by rw [length_rowBlocks]; exact this), ih hlt]
    · obtain rfl : j = m := by omega
      rw [List.getElem?_append_right (by rw [length_rowBlocks]; omega), length_rowBlocks,
        List.getElem?_replicate, if_pos (by omega)]

theorem rowArea_eq (l : Lattice Rat) (turn radius : Rat) (j : Nat) :
    l.rowArea turn radius j = turn / l.columns * l.band j * (radius * radius) :=
  rfl

/-- The area of a cell is that of its band. -/
theorem getD_cellAreas (turn radius : Rat) {i j : Nat} (hj : j < l.rows) (hi : i < l.columns) :
    (l.cellAreas turn radius).getD (j * l.columns + i) 0 = l.rowArea turn radius j := by
  unfold cellAreas
  rw [Array.getD_eq_getD_getElem?, List.getElem?_toArray,
    getElem?_rowBlocks (l.rowArea turn radius) hj hi, Option.getD_some]

/-- Nor is the cell. -/
theorem Partition.cellArea_ne_zero (h : l.Partition) {turn radius : Rat} (hturn : turn ≠ 0)
    (hradius : radius ≠ 0) {c : Nat} (hc : c < l.size) :
    (l.cellAreas turn radius).getD c 0 ≠ 0 := by
  obtain ⟨j, i, hj, hi, rfl⟩ := exists_cell hc
  have hn : (l.columns : Rat) ≠ 0 := by exact_mod_cast h.columns_pos.ne'
  rw [getD_cellAreas _ _ hj hi, rowArea_eq]
  exact mul_ne_zero (mul_ne_zero (div_ne_zero hturn hn) (h.band_pos hj).ne')
    (mul_ne_zero hradius hradius)

end Lattice

/-! ## Accepted grids -/

section Edges

variable {α : Type} [Trigonometry α]

theorem LatLon.size_sineEdges (rows : Nat) (spacing : α) :
    (sineEdges rows spacing).size = rows + 1 := by
  simp [sineEdges]

theorem LatLon.rows_lattice (g : LatLon α) : g.lattice.rows = g.rows := by
  rw [Lattice.rows, lattice, size_sineEdges, Nat.add_sub_cancel]

/-- The edges of the outermost rows are the poles. -/
theorem LatLon.getD_sineEdges {rows j : Nat} (hj : j ≤ rows) (spacing : α) :
    (sineEdges rows spacing).getD j 0 =
      if j = 0 then -1 else if j = rows then 1
      else Trigonometry.sin (edgeAngle rows spacing j) := by
  exact getD_map_range (Nat.lt_succ_of_le hj) _ 0

/-- What the numbers of a grid are accepted for: counts, a spacing and a radius that are positive,
and edges that increase. -/
structure LatLon.Accepted (g : LatLon α) : Prop where
  columns_pos : 0 < g.columns
  rows_pos : 0 < g.rows
  spacing_pos : 0 < g.spacing
  radius_pos : 0 < g.radius
  follow : hasStep (sineEdges g.rows g.spacing).toList = false

theorem LatLon.accepted_of_ofCounts {columns rows : Int} {offset radius : α} {spacing : Option α}
    {g : LatLon α} (h : ofCounts columns rows offset spacing radius = .ok g) : g.Accepted := by
  unfold ofCounts at h
  simp only [bind, Except.bind, pure, Except.pure, throw, throwThe, MonadExceptOf.throw] at h
  split at h
  · cases h
  rename_i hpos
  split at h
  · rename_i hspacing
    split at h
    · split at h
      · rename_i hradius
        split at h
        · cases h
        rename_i hstep
        split at h
        · cases h
          rw [Bool.and_eq_true, decide_eq_true_eq] at hspacing hradius
          exact ⟨by simp only; omega, by simp only; omega, hspacing.2, hradius.2,
            by simpa using hstep⟩
        · cases h
      · cases h
    · cases h
  · cases h

end Edges

/-- Exact angles, with any functions in place of the sine and its inverse. -/
abbrev exactAngles (pi : Rat) (sin arcsin : Rat → Rat) (modulo : Rat → Nat → Rat) :
    Trigonometry Rat :=
  { (inferInstance : Scalar Rat) with pi, sin, arcsin, modulo }

section Accepted

variable {pi : Rat} {sin arcsin : Rat → Rat} {modulo : Rat → Nat → Rat}

theorem lt_of_hasStep {xs : List Rat}
    (h : @LatLon.hasStep Rat (exactAngles pi sin arcsin modulo) xs = false) {j : Nat}
    (hj : j + 1 < xs.length) : xs.getD j 0 < xs.getD (j + 1) 0 := by
  unfold LatLon.hasStep at h
  rw [List.any_eq_false] at h
  have hmem : (xs[j], xs[j + 1]) ∈ xs.zip (xs.drop 1) := by
    refine List.mem_iff_getElem.mpr ⟨j, by simp; omega, ?_⟩
    simp
  have := h _ hmem
  simp only [decide_eq_true_eq, not_le, sub_pos] at this
  rwa [← List.getElem_eq_getD, ← List.getElem_eq_getD]

/-- **Grids that are accepted are partitions.** -/
theorem partition_of_ofCounts {columns rows : Int} {offset radius : Rat} {spacing : Option Rat}
    {g : LatLon Rat}
    (h : @LatLon.ofCounts Rat (exactAngles pi sin arcsin modulo) columns rows offset spacing
      radius = .ok g) : (@LatLon.lattice Rat (exactAngles pi sin arcsin modulo) g).Partition := by
  let _ := exactAngles pi sin arcsin modulo
  obtain ⟨hcols, hrows, -, -, hstep⟩ := LatLon.accepted_of_ofCounts h
  have hsize : (@LatLon.sineEdges Rat (exactAngles pi sin arcsin modulo) g.rows g.spacing).size =
      g.rows + 1 :=
    LatLon.size_sineEdges g.rows g.spacing
  have hr : (@LatLon.lattice Rat (exactAngles pi sin arcsin modulo) g).rows = g.rows :=
    LatLon.rows_lattice g
  refine ⟨hcols, by rw [hr]; exact hrows, ?_, ?_, fun j hj => ?_⟩
  · exact LatLon.getD_sineEdges (Nat.zero_le _) g.spacing
  · rw [hr]
    refine (LatLon.getD_sineEdges le_rfl g.spacing).trans ?_
    rw [if_neg (by omega), if_pos rfl]
  · rw [hr] at hj
    have := lt_of_hasStep hstep (j := j) (by rw [Array.length_toList, hsize]; omega)
    rwa [List.getD_eq_getElem?_getD, List.getD_eq_getElem?_getD, Array.getElem?_toList,
      Array.getElem?_toList, ← Array.getD_eq_getD_getElem?, ← Array.getD_eq_getD_getElem?] at this

end Accepted

end Regrid

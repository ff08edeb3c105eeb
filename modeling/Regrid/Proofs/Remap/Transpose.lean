import Regrid.Proofs.LatLon.Arcs
import Regrid.Proofs.Remap.Intersection

/-!
# There and back

Weighted with the areas of the target cells, an element of an operator is the area that its two
cells have in common (`dense_cellAreas`). Common areas are symmetric (`commonArea_comm`), so the
operator of the other direction, weighted with the areas of the source cells, is the transposed
matrix (`build_transpose`).
-/

namespace Regrid

namespace Lattice

theorem size_cellAreas {α : Type} [Scalar α] (l : Lattice α) (turn radius : α) :
    (l.cellAreas turn radius).size = l.size := by
  unfold cellAreas
  rw [List.size_toArray, length_rowBlocks]
  rfl

/-- Which cell is named first does not matter. -/
theorem commonArea_comm (l other : Lattice Rat) (turn radius : Rat) (cell cell' : Nat) :
    l.commonArea other turn radius cell cell' = other.commonArea l turn radius cell' cell := by
  unfold commonArea
  rw [arcCommon_comm, common_comm]

end Lattice

namespace Remap

/-- The remap in the other direction. -/
def reversed {α : Type} (r : Remap α) : Remap α := ⟨r.target, r.source⟩

variable {r : Remap Rat}

section Weighted

variable (hs : r.source.Partition) (ht : r.target.Partition) (hstart : r.StartsWest)
include hs ht hstart

/-- **An element of the operator of areas** is the area that the cells have in common. -/
theorem dense_cellAreas (turn radius : Rat) {b a : Nat} (hb : b < r.target.size)
    (ha : a < r.source.size) :
    (r.operator (r.target.cellAreas turn radius) none).dense b a =
      r.target.commonArea r.source turn radius b a := by
  obtain ⟨j, i, hj, hi, rfl⟩ := Lattice.exists_cell hb
  obtain ⟨k, l, hk, hl, rfl⟩ := Lattice.exists_cell ha
  have hband : r.target.band j ≠ 0 := (ht.band_pos hj).ne'
  have hn : (r.target.columns : Rat) ≠ 0 := by exact_mod_cast ht.columns_pos.ne'
  rw [dense_eq_common hs ht hstart _ hj hi hk hl, Lattice.getD_cellAreas _ _ hj hi,
    Lattice.rowArea_eq, Lattice.commonArea, Lattice.div_cell hi, Lattice.div_cell hl,
    Lattice.mod_cell hi, Lattice.mod_cell hl]
  field_simp

end Weighted

/-- **The other direction gives the transposed matrix**, if both weight with the areas of the cells
they go to: an element is the area in common either way. -/
theorem build_transpose (hs : r.source.Partition) (ht : r.target.Partition)
    (hsource : r.source.WithinTurn) (htarget : r.target.WithinTurn) (turn radius : Rat) :
    ∃ u v, r.build { weights := some (r.target.cellAreas turn radius) } = .ok (u, []) ∧
      r.reversed.build { weights := some (r.source.cellAreas turn radius) } = .ok (v, []) ∧
      u.rows = v.cols ∧ u.cols = v.rows ∧
      ∀ b, b < u.rows → ∀ a, a < u.cols →
        u.dense b a = v.dense a b ∧
        u.dense b a = r.target.commonArea r.source turn radius b a := by
  have hthere : r.StartsWest := startsWest_of_withinTurn hs.columns_pos hsource htarget
  have hback : r.reversed.StartsWest := startsWest_of_withinTurn ht.columns_pos htarget hsource
  refine ⟨_, _, build_weights ht (Lattice.size_cellAreas ..),
    build_weights (r := r.reversed) hs (Lattice.size_cellAreas ..), rfl, rfl,
    fun b hb a ha => ?_⟩
  have hu := dense_cellAreas hs ht hthere turn radius hb ha
  have hv := dense_cellAreas (r := r.reversed) ht hs hback turn radius ha hb
  refine ⟨?_, hu⟩
  calc
    _ = r.target.commonArea r.source turn radius b a := hu
    _ = r.source.commonArea r.target turn radius a b := Lattice.commonArea_comm ..
    _ = _ := hv.symm

/-- Halves of the sphere, cut at the equator, and quarters across them. -/
theorem build_transpose_quarters :
    Lattice.Partition ⟨1, 0, #[-1, 0, 1]⟩ ∧ Lattice.Partition ⟨4, 1 / 2, #[-1, 1]⟩ ∧
    ∃ u v, Remap.build (α := Rat) ⟨⟨1, 0, #[-1, 0, 1]⟩, ⟨4, 1 / 2, #[-1, 1]⟩⟩
        { weights := some (Lattice.cellAreas ⟨4, 1 / 2, #[-1, 1]⟩ 6 1) } = .ok (u, []) ∧
      Remap.build (α := Rat) ⟨⟨4, 1 / 2, #[-1, 1]⟩, ⟨1, 0, #[-1, 0, 1]⟩⟩
        { weights := some (Lattice.cellAreas ⟨1, 0, #[-1, 0, 1]⟩ 6 1) } = .ok (v, []) ∧
      u.dense 3 1 = v.dense 1 3 ∧ u.dense 3 1 = 3 / 2 := by
  have hs : Lattice.Partition ⟨1, 0, #[-1, 0, 1]⟩ := by decide +kernel
  have ht : Lattice.Partition ⟨4, 1 / 2, #[-1, 1]⟩ := by decide +kernel
  obtain ⟨u, v, hu, hv, -, -, hdense⟩ := build_transpose (r := ⟨_, _⟩) hs ht
    (by decide +kernel) (by decide +kernel) 6 1
  obtain ⟨rfl, -⟩ := Prod.mk.inj (Except.ok.inj (hu.symm.trans
    (build_weights ht (Lattice.size_cellAreas ..))))
  exact ⟨hs, ht, _, v, hu, hv, (hdense 3 (by decide) 1 (by decide)).1, by decide +kernel⟩

end Remap

end Regrid

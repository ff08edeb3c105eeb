import Regrid.Proofs.Remap.Extended
import Regrid.Remap.Grids

/-!
# Grids of numbers

A grid of rationals describes the same lattice among values that need not be finite
(`LatLon.lattice_extended`), for any functions of angles that take rationals to rationals. So
everything that is proved about remapping between lattices of rationals is about pairs of such grids
(`GridPair.remap_extended`).
-/

namespace Regrid

open Extended (number)

/-- Functions of plane angles that take rationals to rationals. -/
class RationalAngles where
  pi : Rat
  sin : Rat → Rat
  arcsin : Rat → Rat
  modulo : Rat → Nat → Rat

instance [a : RationalAngles] : Trigonometry Rat := exactAngles a.pi a.sin a.arcsin a.modulo

/-- A function of rationals among extended values. There it has no value where it is not given
one. -/
def Extended.lift (f : Rat → Rat) : Extended → Extended
  | .number q => .number (f q)
  | _ => .undefined

instance [a : RationalAngles] : Trigonometry Extended :=
  { (inferInstance : Scalar Extended) with
    pi := number a.pi
    sin := Extended.lift a.sin
    arcsin := Extended.lift a.arcsin
    modulo := fun x n => Extended.lift (fun q => a.modulo q n) x }

namespace LatLon

/-- The grid among extended values. -/
def extended (g : LatLon Rat) : LatLon Extended :=
  ⟨g.columns, g.rows, number g.offset, number g.spacing, number g.radius⟩

section Counts

variable {α : Type} [Trigonometry α]

theorem shape_lattice (g : LatLon α) : [g.lattice.rows, g.lattice.columns] = g.shape :=
  congrArg (fun n => [n, g.columns]) g.rows_lattice

theorem size_lattice (g : LatLon α) : g.lattice.size = g.size := by
  unfold Lattice.size
  rw [rows_lattice]
  exact Nat.mul_comm ..

end Counts

variable [RationalAngles]

theorem edgeAngle_extended (rows : Nat) (spacing : Rat) (j : Nat) :
    edgeAngle rows (number spacing) j = number (edgeAngle rows spacing j) := by
  have hhalf : (Scalar.ratio 1 2 : Extended) = number (Scalar.ratio 1 2) :=
    Extended.number_div two_ne_zero
  have hminute : (Trigonometry.minute : Extended) = number Trigonometry.minute :=
    Extended.number_div (Nat.cast_ne_zero.mpr (by decide))
  unfold edgeAngle
  simp only [hhalf, hminute, Extended.number_ofNat, Extended.number_add, Extended.number_mul,
    Extended.number_sub]
  rfl

theorem sineEdges_extended (rows : Nat) (spacing : Rat) :
    sineEdges rows (number spacing) = (sineEdges rows spacing).map number := by
  unfold sineEdges
  rw [List.map_toArray, List.map_map]
  congr 1
  refine List.map_congr_left fun j _ => ?_
  simp only [Function.comp]
  split_ifs
  · rfl
  · rfl
  · rw [edgeAngle_extended]
    rfl

/-- **A grid of numbers** describes the lattice of these numbers. -/
theorem lattice_extended (g : LatLon Rat) : g.extended.lattice = g.lattice.extended := by
  unfold lattice Lattice.extended
  rw [← sineEdges_extended]
  rfl

end LatLon

namespace GridPair

/-- The pair of grids among extended values. -/
def extended (p : GridPair Rat) : GridPair Extended := ⟨p.source.extended, p.target.extended⟩

/-- **Grids of numbers are remapped** as the lattices of these numbers. -/
theorem remap_extended [RationalAngles] (p : GridPair Rat) :
    p.extended.remap = p.remap.extended := by
  unfold remap Remap.extended extended
  simp only [LatLon.lattice_extended]

end GridPair

end Regrid

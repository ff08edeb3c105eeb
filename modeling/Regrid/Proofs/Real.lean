import Mathlib.Analysis.SpecialFunctions.Trigonometric.Inverse
import Regrid.Angle

/-!
# Real numbers

Over the real numbers a definition is exact, angles included: every value is a finite number, the
sine is the sine, and a remainder lies between zero and the divisor (`modulo_nonneg`, `modulo_lt`)
and leaves whole multiples of it (`exists_modulo`).
-/

namespace Regrid

/-- The integer nearest to a real number; of two equally near the even one. -/
noncomputable def nearestInteger (x : ℝ) : Int :=
  if Int.fract x < 1 / 2 ∨ Int.fract x = 1 / 2 ∧ Even ⌊x⌋ then ⌊x⌋ else ⌊x⌋ + 1

/-- Exact arithmetic of real numbers. A message shows 52 binary places of them. -/
noncomputable instance : Scalar ℝ where
  zero := 0
  one := 1
  ofInt z := z
  isNaN _ := false
  isFinite _ := true
  undefined := 0
  toFloat x := Float.ofInt ⌊x * 2 ^ 52⌋ / Float.ofInt (2 ^ 52)
  ceil := Int.ceil
  round := nearestInteger
  decLt := inferInstance
  decLe := inferInstance

noncomputable instance : Trigonometry ℝ where
  pi := Real.pi
  sin := Real.sin
  arcsin := Real.arcsin
  modulo x n := x - n * ⌊x / n⌋

namespace Scalar

@[simp] theorem ofInt_real (n : Int) : (Scalar.ofInt n : ℝ) = n := rfl

@[simp] theorem ofNat_real (n : Nat) : (Scalar.ofNat n : ℝ) = n := Int.cast_natCast n

@[simp] theorem ratio_real (p q : Nat) : (Scalar.ratio p q : ℝ) = p / q := by
  unfold ratio
  rw [ofNat_real, ofNat_real]

@[simp] theorem abs_real (x : ℝ) : Scalar.abs x = |x| := by
  unfold abs
  split_ifs with h
  · exact (abs_of_neg h).symm
  · exact (abs_of_nonneg (not_lt.mp h)).symm

end Scalar

namespace Trigonometry

@[simp] theorem pi_real : (pi : ℝ) = Real.pi := rfl

@[simp] theorem sin_real (x : ℝ) : sin x = Real.sin x := rfl

@[simp] theorem arcsin_real (x : ℝ) : arcsin x = Real.arcsin x := rfl

theorem modulo_nonneg (x : ℝ) {n : Nat} (hn : 0 < n) : 0 ≤ modulo x n := by
  have hn : (0 : ℝ) < n := Nat.cast_pos.mpr hn
  have hfloor : (⌊x / n⌋ : ℝ) * n ≤ x := (le_div_iff₀ hn).mp (Int.floor_le _)
  exact sub_nonneg.mpr ((mul_comm _ _).trans_le hfloor)

theorem modulo_lt (x : ℝ) {n : Nat} (hn : 0 < n) : modulo x n < n := by
  have hn : (0 : ℝ) < n := Nat.cast_pos.mpr hn
  have hfloor : x < (⌊x / n⌋ + 1) * n := (div_lt_iff₀ hn).mp (Int.lt_floor_add_one _)
  show x - n * ⌊x / n⌋ < n
  linarith

/-- What a remainder leaves out is a multiple of the divisor. -/
theorem exists_modulo (x : ℝ) (n : Nat) : ∃ turns : Int, x = modulo x n + n * turns :=
  ⟨⌊x / n⌋, (sub_add_cancel x _).symm⟩

end Trigonometry

end Regrid

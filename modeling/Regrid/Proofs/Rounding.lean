import Mathlib.Algebra.Order.Field.Power
import Mathlib.Algebra.Order.Field.Rat
import Mathlib.Tactic.Linarith
import Regrid.Scalar

/-!
# Rounding to integers

`roundHalfEven` keeps the order of quotients (`roundHalfEven_mono`), so it depends on the value of a
quotient only, and leaves whole ones as they are. The same holds of the rounded value of an exact
scalar. It does not commute with sums, but the multiples of a quotient stay in step
(`roundHalfEven_succ_mul`).
-/

namespace Regrid

namespace Decimal

variable {n d : Nat}

/-- The rounded quotient is no more than half above the quotient, and that only if it is even. -/
theorem roundHalfEven_le (hd : 0 < d) :
    2 * (d * roundHalfEven n d) ≤ 2 * n + d ∧
      (2 * (d * roundHalfEven n d) = 2 * n + d → roundHalfEven n d % 2 = 0) := by
  have hn := Nat.div_add_mod n d
  have hr := Nat.mod_lt n hd
  unfold roundHalfEven
  generalize n / d = q at *
  generalize n % d = r at *
  have hnext : d * (q + 1) = d * q + d := Nat.mul_succ d q
  simp only
  split_ifs <;> omega

/-- Nor is it more than half below the quotient. -/
theorem le_roundHalfEven (hd : 0 < d) :
    2 * n ≤ 2 * (d * roundHalfEven n d) + d ∧
      (2 * n = 2 * (d * roundHalfEven n d) + d → roundHalfEven n d % 2 = 0) := by
  have hn := Nat.div_add_mod n d
  have hr := Nat.mod_lt n hd
  unfold roundHalfEven
  generalize n / d = q at *
  generalize n % d = r at *
  have hnext : d * (q + 1) = d * q + d := Nat.mul_succ d q
  simp only
  split_ifs <;> omega

/-- **Rounding keeps the order of quotients.** -/
theorem roundHalfEven_mono {n' d' : Nat} (hd : 0 < d) (hd' : 0 < d') (h : n * d' ≤ n' * d) :
    roundHalfEven n d ≤ roundHalfEven n' d' := by
  obtain ⟨hle, heven⟩ := roundHalfEven_le (n := n) hd
  obtain ⟨hge, heven'⟩ := le_roundHalfEven (n := n') hd'
  generalize roundHalfEven n d = q at *
  generalize roundHalfEven n' d' = q' at *
  by_contra hlt
  -- otherwise both quotients are halves between `q'` and `q`, and both of these are even
  have hsucc : d * d' * (q' + 1) ≤ d * d' * q := Nat.mul_le_mul_left _ (by omega)
  have h1 : d' * (2 * (d * q)) ≤ d' * (2 * n + d) := Nat.mul_le_mul_left _ hle
  have h2 : d * (2 * n') ≤ d * (2 * (d' * q') + d') := Nat.mul_le_mul_left _ hge
  have htie : 2 * (d * q) = 2 * n + d := by
    refine Nat.eq_of_mul_eq_mul_left hd' ?_
    nlinarith
  have htie' : 2 * n' = 2 * (d' * q') + d' := by
    refine Nat.eq_of_mul_eq_mul_left hd ?_
    nlinarith
  have hq : q = q' + 1 := by
    refine Nat.eq_of_mul_eq_mul_left (Nat.mul_pos hd hd') ?_
    nlinarith
  have := heven htie
  have := heven' htie'
  omega

/-- Rounding depends on the value of a quotient only. -/
theorem roundHalfEven_congr {n' d' : Nat} (hd : 0 < d) (hd' : 0 < d') (h : n * d' = n' * d) :
    roundHalfEven n d = roundHalfEven n' d' :=
  le_antisymm (roundHalfEven_mono hd hd' h.le) (roundHalfEven_mono hd' hd h.ge)

theorem roundHalfEven_zero (hd : 0 < d) : roundHalfEven 0 d = 0 := by
  unfold roundHalfEven
  simp [hd]

theorem roundHalfEven_one (n : Nat) : roundHalfEven n 1 = n := by
  unfold roundHalfEven
  simp [Nat.mod_one]

/-- A multiple of the divisor is left as it is. -/
theorem roundHalfEven_mul (hd : 0 < d) (q : Nat) : roundHalfEven (q * d) d = q := by
  rw [roundHalfEven_congr hd Nat.one_pos (Nat.mul_one (q * d)), roundHalfEven_one]

/-- **From one multiple of a quotient to the next** the rounded value grows by the quotient, rounded
down or up. -/
theorem roundHalfEven_succ_mul (hd : 0 < d) (k : Nat) :
    roundHalfEven ((k + 1) * n) d = roundHalfEven (k * n) d + n / d ∨
      ¬ d ∣ n ∧ roundHalfEven ((k + 1) * n) d = roundHalfEven (k * n) d + (n / d + 1) := by
  by_cases hdvd : d ∣ n
  · left
    obtain ⟨q, rfl⟩ := hdvd
    have hmul : ∀ k : Nat, k * (d * q) = k * q * d := fun k => by
      rw [Nat.mul_comm d q, Nat.mul_assoc]
    rw [hmul, hmul, roundHalfEven_mul hd, roundHalfEven_mul hd, Nat.mul_div_cancel_left q hd,
      Nat.succ_mul]
  · -- both values are off by at most a half, and the quotient is not whole
    have hrest : 0 < n % d := Nat.pos_of_ne_zero fun h => hdvd (Nat.dvd_of_mod_eq_zero h)
    have hlt := Nat.mod_lt n hd
    have hn := Nat.div_add_mod n d
    obtain ⟨hle, -⟩ := roundHalfEven_le (n := k * n) hd
    obtain ⟨hge, -⟩ := le_roundHalfEven (n := k * n) hd
    obtain ⟨hle', -⟩ := roundHalfEven_le (n := (k + 1) * n) hd
    obtain ⟨hge', -⟩ := le_roundHalfEven (n := (k + 1) * n) hd
    generalize roundHalfEven (k * n) d = a at *
    generalize roundHalfEven ((k + 1) * n) d = b at *
    rw [Nat.succ_mul k n] at hle' hge'
    have hlow : a + n / d < b + 1 := by
      refine Nat.lt_of_mul_lt_mul_left (a := d) ?_
      rw [Nat.mul_add, Nat.mul_add]
      omega
    have hhigh : b < a + (n / d + 2) := by
      refine Nat.lt_of_mul_lt_mul_left (a := d) ?_
      rw [Nat.mul_add, Nat.mul_add]
      omega
    omega

/-! ## Binary numbers -/

theorem Binary.quotient_pos (m : Nat) (e : Int) : 0 < (Binary.quotient m e).2 := by
  unfold Binary.quotient
  split_ifs
  · exact Nat.one_pos
  · exact Nat.two_pow_pos _

theorem Binary.eq_quotient (m : Nat) (e : Int) :
    (m * 2 ^ e : Rat) = (Binary.quotient m e).1 / (Binary.quotient m e).2 := by
  have htwo : ∀ n, twoTo n = 2 ^ n := fun _ => rfl
  unfold Binary.quotient
  split_ifs with he
  · simp only [htwo]
    push_cast
    rw [div_one, ← zpow_natCast, Int.toNat_of_nonneg he]
  · simp only [htwo]
    push_cast
    rw [← zpow_natCast, Int.toNat_of_nonneg (by omega), zpow_neg, div_inv_eq_mul]

theorem Binary.round?_zero (e : Int) : (Binary.finite false 0 e).round? = some 0 := by
  have hzero : (Binary.quotient 0 e).1 = 0 := by
    unfold Binary.quotient
    split_ifs
    · exact Nat.zero_mul _
    · rfl
  show some ((roundHalfEven (Binary.quotient 0 e).1 (Binary.quotient 0 e).2 : Nat) : Int) = some 0
  rw [hzero, roundHalfEven_zero (Binary.quotient_pos 0 e)]
  rfl

end Decimal

/-! ## Scalars -/

/-- Over exact scalars, the rounded value of a number that is not negative. -/
theorem toNat_round {q : Rat} (hq : 0 ≤ q) :
    (Scalar.round q).toNat = Decimal.roundHalfEven q.num.natAbs q.den := by
  show (q.num.sign * (Decimal.roundHalfEven q.num.natAbs q.den : Int)).toNat = _
  rcases hq.eq_or_lt with rfl | hpos
  · decide
  · rw [Int.sign_eq_one_of_pos (Rat.num_pos.mpr hpos), one_mul, Int.toNat_natCast]

theorem toNat_round_div (n : Nat) {d : Nat} (hd : 0 < d) :
    (Scalar.round (n / d : Rat)).toNat = Decimal.roundHalfEven n d := by
  have hpos : (0 : Rat) < d := by exact_mod_cast hd
  have hq : (0 : Rat) ≤ n / d := div_nonneg n.cast_nonneg hpos.le
  rw [toNat_round hq]
  refine Decimal.roundHalfEven_congr (Rat.den_pos _) hd ?_
  generalize hv : (n / d : Rat) = v at hq
  have hnum : ((v.num.natAbs : Nat) : Rat) = v.num := by
    rw [← Int.cast_natCast, Int.natAbs_of_nonneg (Rat.num_nonneg.mpr hq)]
  have hcross : (v.num.natAbs * d : Rat) = n * v.den := by
    rw [hnum, ← div_eq_div_iff (by exact_mod_cast v.den_ne_zero) hpos.ne', Rat.num_div_den, hv]
  exact_mod_cast hcross

theorem toNat_round_natCast (n : Nat) : (Scalar.round (n : Rat)).toNat = n := by
  rw [toNat_round n.cast_nonneg, Rat.num_natCast, Rat.den_natCast, Int.natAbs_natCast,
    Decimal.roundHalfEven_one]

theorem toNat_round_mono {p q : Rat} (hp : 0 ≤ p) (h : p ≤ q) :
    (Scalar.round p).toNat ≤ (Scalar.round q).toNat := by
  rw [toNat_round hp, toNat_round (hp.trans h)]
  refine Decimal.roundHalfEven_mono p.den_pos q.den_pos ?_
  have hcross := (Rat.le_iff p q).mp h
  have hp' := Rat.num_nonneg.mpr hp
  have hq' := Rat.num_nonneg.mpr (hp.trans h)
  zify
  rwa [abs_of_nonneg hp', abs_of_nonneg hq']

end Regrid

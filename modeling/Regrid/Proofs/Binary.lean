import Mathlib.Algebra.Order.Field.Power
import Mathlib.Algebra.Order.Floor.Semiring
import Mathlib.Data.Nat.Cast.Order.Field
import Mathlib.Data.Rat.Floor
import Mathlib.Tactic.FieldSimp
import Mathlib.Tactic.Linarith
import Mathlib.Tactic.NormNum
import Mathlib.Tactic.Positivity
import Mathlib.Tactic.Ring
import Regrid.Proofs.Rounding

/-!
# Binary numbers that stand for values

A binary64 operation rounds an exact value to 53 bits. All that is needed of it here is that it is
`Faithful`: no number of at most 53 bits comes between the exact value and the rounded one. So
natural numbers are exact, and an exact value between two of them stays between them.

`StandsFor x v` says that `x` has the value `v`, which is between one and `2 ^ 53`. Products and
quotients in that range are faithful (`StandsFor.mul`, `StandsFor.div`), natural numbers stand for
themselves (`StandsFor.ofNat`), and a number is rounded to an integer as its value is
(`StandsFor.toNat_round`). The proofs follow an operation on the unpacked parts: the mantissa is cut
off, with residual bits that tell whether anything is lost (`Truncates`), rounded, and packed.
-/

namespace Regrid

open Float.Model Float.Model.UnpackedFloat

/-! ## Neighbours -/

/-- No number with at most 53 bits comes between an exact value and the rounded one. -/
def Faithful (exact rounded : Rat) : Prop :=
  ∀ (n : Nat) (k : Int), n ≤ 2 ^ 53 →
    ((n * 2 ^ k : Rat) ≤ exact → (n * 2 ^ k : Rat) ≤ rounded) ∧
      (exact ≤ (n * 2 ^ k : Rat) → rounded ≤ (n * 2 ^ k : Rat))

theorem Faithful.natCast_le {v w : Rat} (h : Faithful v w) {n : Nat} (hn : n ≤ 2 ^ 53)
    (hv : (n : Rat) ≤ v) : (n : Rat) ≤ w := by
  simpa using (h n 0 hn).1 (by simpa using hv)

theorem Faithful.le_natCast {v w : Rat} (h : Faithful v w) {n : Nat} (hn : n ≤ 2 ^ 53)
    (hv : v ≤ n) : w ≤ n := by
  simpa using (h n 0 hn).2 (by simpa using hv)

theorem Faithful.eq_natCast {w : Rat} {n : Nat} (h : Faithful n w) (hn : n ≤ 2 ^ 53) : w = n :=
  le_antisymm (h.le_natCast hn le_rfl) (h.natCast_le hn le_rfl)

/-- Values that are one apart are not rounded past each other: there is a natural number between
them. -/
theorem Faithful.le_of_add_one_le {p q v w : Rat} (hv : Faithful p v) (hw : Faithful q w)
    (hp : 0 ≤ p) (hpq : p + 1 ≤ q) (hq : q ≤ 2 ^ 53) : v ≤ w := by
  have hnext : ((⌈p⌉₊ : Nat) : Rat) ≤ q := (Nat.ceil_lt_add_one hp).le.trans hpq
  have hbits : ⌈p⌉₊ ≤ 2 ^ 53 := by exact_mod_cast hnext.trans hq
  exact (hv.le_natCast hbits (Nat.le_ceil p)).trans (hw.natCast_le hbits hnext)

/-- A mantissa of 53 bits below a value, or the next one: no shorter number comes between. -/
theorem faithful_of_truncated {m r : Nat} {e : Int} {v : Rat} (hm : 2 ^ 52 ≤ m)
    (hle : (m * 2 ^ e : Rat) ≤ v) (hlt : v < ((m + 1 : Nat) * 2 ^ e : Rat))
    (hr : m ≤ r ∧ r ≤ m + 1) (hexact : v = (m * 2 ^ e : Rat) → r = m) :
    Faithful v (r * 2 ^ e) := by
  have hpos : (0 : Rat) < 2 ^ e := zpow_pos (by norm_num) e
  have hmr : (m * 2 ^ e : Rat) ≤ r * 2 ^ e :=
    mul_le_mul_of_nonneg_right (by exact_mod_cast hr.1) hpos.le
  intro n k hn
  rcases le_or_gt e k with hek | hke
  · -- a multiple of the last bit of the mantissa
    obtain ⟨d, rfl⟩ : ∃ d : Nat, k = d + e := ⟨(k - e).toNat, by omega⟩
    have hmul : (n * 2 ^ ((d : Int) + e) : Rat) = (n * 2 ^ d : Nat) * 2 ^ e := by
      rw [zpow_add₀ (by norm_num), zpow_natCast]
      push_cast
      ring
    rw [hmul]
    generalize n * 2 ^ d = n
    constructor
    · intro h
      have hnm : n < m + 1 := by exact_mod_cast lt_of_mul_lt_mul_right (h.trans_lt hlt) hpos.le
      have hnr : n ≤ r := (Nat.lt_succ_iff.mp hnm).trans hr.1
      exact mul_le_mul_of_nonneg_right (by exact_mod_cast hnr) hpos.le
    · intro h
      have hmn : m ≤ n := by exact_mod_cast le_of_mul_le_mul_right (hle.trans h) hpos
      refine mul_le_mul_of_nonneg_right ?_ hpos.le
      rcases hmn.lt_or_eq with hlt | rfl
      · exact_mod_cast hr.2.trans hlt
      · exact_mod_cast (hexact (le_antisymm h hle)).le
  · -- not above any number with 53 bits that ends in this one
    have hsmall : (n * 2 ^ k : Rat) ≤ m * 2 ^ e := by
      have hk : (2 ^ k : Rat) ≤ 2 ^ (e - 1) := zpow_le_zpow_right₀ (by norm_num) (by omega)
      have hn' : (n : Rat) ≤ 2 ^ 53 := by exact_mod_cast hn
      have hm' : (2 ^ 52 : Rat) ≤ m := by exact_mod_cast hm
      calc (n * 2 ^ k : Rat)
        _ ≤ 2 ^ 53 * 2 ^ (e - 1) := mul_le_mul hn' hk (zpow_pos (by norm_num) k).le (by norm_num)
        _ = 2 ^ 52 * 2 ^ e := by rw [zpow_sub_one₀ (by norm_num)]; ring
        _ ≤ m * 2 ^ e := mul_le_mul_of_nonneg_right hm' hpos.le
    refine ⟨fun _ => hsmall.trans hmr, fun h => ?_⟩
    rw [hexact (le_antisymm (h.trans hsmall) hle)]
    exact hle.trans h

/-! ## Residual bits -/

/-- A mantissa below a value, the residual bits of which are empty only if it is the value. -/
structure Truncates (em : ExtendedMantissa) (e : Int) (v : Rat) : Prop where
  le : (em.mantissa * 2 ^ e : Rat) ≤ v
  lt : v < ((em.mantissa + 1 : Nat) * 2 ^ e : Rat)
  exact : v = (em.mantissa * 2 ^ e : Rat) → em.roundBit = false ∧ em.stickyBit = false

theorem Truncates.shiftRightOne {em : ExtendedMantissa} {e : Int} {v : Rat}
    (h : Truncates em e v) : Truncates em.shiftRightOne (e + 1) v := by
  have hpos : (0 : Rat) < 2 ^ e := zpow_pos (by norm_num) e
  have hshifted : em.shiftRightOne.mantissa = em.mantissa / 2 := rfl
  have hstep : ∀ n : Nat, (n * 2 ^ (e + 1) : Rat) = (2 * n : Nat) * 2 ^ e := by
    intro n
    rw [zpow_add_one₀ (by norm_num)]
    push_cast
    ring
  have hhalf : 2 * (em.mantissa / 2) ≤ em.mantissa ∧
      em.mantissa + 1 ≤ 2 * (em.mantissa / 2 + 1) := by omega
  have hle : ((2 * (em.mantissa / 2) : Nat) * 2 ^ e : Rat) ≤ em.mantissa * 2 ^ e :=
    mul_le_mul_of_nonneg_right (by exact_mod_cast hhalf.1) hpos.le
  refine ⟨?_, ?_, fun hv => ?_⟩
  · rw [hstep]
    exact hle.trans h.le
  · rw [hstep]
    exact h.lt.trans_le (mul_le_mul_of_nonneg_right (by exact_mod_cast hhalf.2) hpos.le)
  · rw [hstep] at hv
    have heven : em.mantissa = 2 * (em.mantissa / 2) := by
      have : em.mantissa ≤ 2 * (em.mantissa / 2) := by
        exact_mod_cast le_of_mul_le_mul_right (h.le.trans hv.le) hpos
      omega
    have hbits := h.exact (by rw [hv, hshifted, ← heven])
    have hodd : em.mantissa % 2 = 0 := by omega
    simp [ExtendedMantissa.shiftRightOne, hbits, hodd]

theorem mantissa_ofMantissaAndAccuracy (m : Nat) (acc : Accuracy) :
    (ExtendedMantissa.ofMantissaAndAccuracy m acc).mantissa = m := by
  unfold ExtendedMantissa.ofMantissaAndAccuracy
  split <;> rfl

theorem mantissa_shiftRight (em : ExtendedMantissa) (k : Nat) :
    (em >>> k).mantissa = em.mantissa / 2 ^ k := by
  induction k with
  | zero => simp [HShiftRight.hShiftRight, Nat.repeat]
  | succ k ih =>
    show (em >>> k).mantissa / 2 = _
    rw [ih, Nat.div_div_eq_div_mul, Nat.pow_succ]

theorem Truncates.shiftRight {em : ExtendedMantissa} {e : Int} {v : Rat}
    (h : Truncates em e v) (k : Nat) : Truncates (em >>> k) (e + k) v := by
  induction k with
  | zero => simpa [HShiftRight.hShiftRight, Nat.repeat] using h
  | succ k ih =>
    have := ih.shiftRightOne
    rw [Nat.cast_succ, ← add_assoc]
    exact this

theorem roundedMantissa_bounds (em : ExtendedMantissa) :
    em.mantissa ≤ em.roundedMantissa ∧ em.roundedMantissa ≤ em.mantissa + 1 := by
  obtain ⟨m, r, s⟩ := em
  cases r <;> cases s <;>
    simp [ExtendedMantissa.roundedMantissa, ExtendedMantissa.accuracy,
      Accuracy.roundToNearestEven]
  omega

theorem roundedMantissa_exact {em : ExtendedMantissa}
    (h : em.roundBit = false ∧ em.stickyBit = false) : em.roundedMantissa = em.mantissa := by
  obtain ⟨m, r, s⟩ := em
  obtain ⟨rfl, rfl⟩ := h
  rfl

/-! ## Rounding to 53 bits -/

theorem targetExponent_eq (t : Int) :
    Format.binary64.targetExponent t = max (t - 53) (-1074) := by rfl

/-- A mantissa of at most 53 bits stays as it is. -/
theorem shiftToTargetExponent_small {m : Nat} {e : Int} (hm : m < 2 ^ 53) (he : -1074 ≤ e) :
    shiftToTargetExponent Format.binary64 m e .exact = (⟨m, false, false⟩, e) := by
  have hlog : m.log2 ≤ 52 := by
    rcases Nat.eq_zero_or_pos m with rfl | hpos
    · decide
    · have := (Nat.log2_lt hpos.ne').mpr hm
      omega
  have htarget : (Format.binary64.targetExponent (totalExponent m e) - e).toNat = 0 := by
    rw [targetExponent_eq, totalExponent]
    omega
  unfold shiftToTargetExponent shiftToExponent
  simp only [htarget]
  simp [HShiftRight.hShiftRight, Nat.repeat, ExtendedMantissa.ofMantissaAndAccuracy]

/-- One that was rounded up to the next power of two loses its last bit, which is zero. -/
theorem shiftToTargetExponent_carry {e : Int} (he : -1074 ≤ e) :
    shiftToTargetExponent Format.binary64 (2 ^ 53) e .exact = (⟨2 ^ 52, false, false⟩, e + 1) := by
  have htarget : (Format.binary64.targetExponent (totalExponent (2 ^ 53) e) - e).toNat = 1 := by
    rw [targetExponent_eq, totalExponent, Nat.log2_two_pow]
    omega
  unfold shiftToTargetExponent shiftToExponent
  simp only [htarget]
  rfl

/-- What is left of a mantissa when all but 53 bits are cut off. -/
theorem bits_of_log2 {m shift : Nat} (hpos : 0 < m) (h : m.log2 = 52 + shift) :
    2 ^ 52 ≤ m / 2 ^ shift ∧ m / 2 ^ shift < 2 ^ 53 := by
  have hself := Nat.log2_self_le hpos.ne'
  have hlt := Nat.lt_log2_self (n := m)
  have hunit := Nat.two_pow_pos shift
  rw [h] at hself hlt
  rw [Nat.le_div_iff_mul_le hunit, Nat.div_lt_iff_lt_mul hunit, ← Nat.pow_add, ← Nat.pow_add]
  exact ⟨hself, by rwa [show 53 + shift = 52 + shift + 1 by omega]⟩

/-- **Rounding is faithful**, and keeps all 53 bits. -/
theorem roundWithAccuracy_faithful {m : Nat} {e : Int} {acc : Accuracy} {v : Rat}
    (h : Truncates (ExtendedMantissa.ofMantissaAndAccuracy m acc) e v) (hm : 2 ^ 52 ≤ m)
    (he : -1022 ≤ m.log2 + e) :
    ∃ (n : Nat) (k : Int) (hn : 0 < n),
      roundWithAccuracy Format.binary64 .positive m e acc = .finite .positive n k hn ∧
      2 ^ 52 ≤ n ∧ n < 2 ^ 53 ∧ Faithful v (n * 2 ^ k) := by
  have hlog : 52 ≤ m.log2 := (Nat.le_log2 (by omega)).mpr hm
  have htarget : (Format.binary64.targetExponent (totalExponent m e) - e).toNat = m.log2 - 52 := by
    rw [targetExponent_eq, totalExponent]
    omega
  obtain ⟨shift, hshift⟩ : ∃ shift, m.log2 = 52 + shift := ⟨m.log2 - 52, by omega⟩
  rw [hshift, Nat.add_sub_cancel_left] at htarget
  have hfirst := h.shiftRight shift
  have hbits := bits_of_log2 (by omega) hshift
  have hround : roundWithAccuracy Format.binary64 .positive m e acc =
      let r := (ExtendedMantissa.ofMantissaAndAccuracy m acc >>> shift).roundedMantissa
      let final := shiftToTargetExponent Format.binary64 r (e + shift) .exact
      if h : final.1.mantissa = 0 then .zero .positive
      else .finite .positive final.1.mantissa final.2 (Nat.pos_of_ne_zero h) := by
    unfold roundWithAccuracy
    conv_lhs => rw [shiftToTargetExponent, shiftToExponent, htarget]
  generalize hem : ExtendedMantissa.ofMantissaAndAccuracy m acc >>> shift = em at hfirst hround
  have hem' : em.mantissa = m / 2 ^ shift := by
    rw [← hem, mantissa_shiftRight, mantissa_ofMantissaAndAccuracy]
  rw [← hem'] at hbits
  have hbounds := roundedMantissa_bounds em
  have hfaithful : Faithful v (em.roundedMantissa * 2 ^ (e + shift)) :=
    faithful_of_truncated hbits.1 hfirst.le hfirst.lt hbounds
      fun hv => roundedMantissa_exact (hfirst.exact hv)
  dsimp only at hround
  rcases (show em.roundedMantissa ≤ 2 ^ 53 by omega).lt_or_eq with hlt | hcarry
  · refine ⟨em.roundedMantissa, e + shift, by omega, ?_, by omega, hlt, hfaithful⟩
    rw [hround, shiftToTargetExponent_small hlt (by omega)]
    exact dif_neg (by simp only; omega)
  · refine ⟨2 ^ 52, e + shift + 1, by norm_num, ?_, le_rfl, by norm_num, ?_⟩
    · rw [hround, hcarry, shiftToTargetExponent_carry (by omega)]
      exact dif_neg (by simp only; omega)
    · rw [hcarry] at hfaithful
      rw [zpow_add_one₀ (by norm_num)]
      convert hfaithful using 1
      norm_num
      ring

/-! ## Packed numbers -/

/-- The bits of a number with 53 bits. -/
theorem toBitVec_pack {m : Nat} {e : Int} (hpos : 0 < m) (hm : 2 ^ 52 ≤ m ∧ m < 2 ^ 53)
    (he : -1074 ≤ e ∧ e ≤ 971) :
    (Float.Model.pack (.finite .positive m e hpos)).toBits.toBitVec =
      packComponents Format.binary64 .positive (BitVec.ofNat 11 (e + 1075).toNat)
        (BitVec.ofNat 52 m) := by
  have hlog : m.log2 = 52 := (Nat.log2_eq_iff hpos.ne').mpr hm
  have hbiased : (e + (Format.binary64.exponentBias : Nat) +
      (Format.binary64.mantissaBitsWithoutImplicit : Nat)).toNat = (e + 1075).toNat := by
    simp only [Format.exponentBias]
    norm_num
    omega
  have hfinite : ¬ 2 ^ 11 ≤ (e + 1075).toNat + 1 := by omega
  have hbits : 52 + 1 = Format.binary64.mantissaBits := by rfl
  unfold Float.Model.pack UnpackedFloat.pack
  simp only [hlog, hbiased]
  rw [if_neg hfinite, if_pos hbits]

theorem unpackSign_positive {spec : Format} (e : BitVec spec.exponentBits)
    (m : BitVec spec.mantissaBitsWithoutImplicit) :
    unpackSign (packComponents spec .positive e m) = 0#1 := by
  have hextract : unpackSign (packComponents spec .positive e m) =
      ((0#1 ++ e ++ m).extractLsb (spec.mantissaBitsWithoutImplicit + spec.exponentBits)
        (spec.mantissaBitsWithoutImplicit + spec.exponentBits)).cast (by omega) := by rfl
  rw [hextract]
  refine BitVec.eq_of_getLsbD_eq fun i hi => ?_
  obtain rfl : i = 0 := by omega
  simp [BitVec.getLsbD_append, BitVec.getElem_append]

theorem finite_congr {s t : Sign} {m n : Nat} {e k : Int} {hm : 0 < m} {hn : 0 < n} (hs : s = t)
    (hmn : m = n) (hek : e = k) : UnpackedFloat.finite s m e hm = .finite t n k hn := by
  subst hs hmn hek
  rfl

theorem toNat_one_append (v : BitVec 52) : (1#1 ++ v).toNat = 2 ^ 52 + v.toNat := by
  rw [BitVec.toNat_append, ← Nat.shiftLeft_add_eq_or_of_lt v.isLt, Nat.shiftLeft_eq]
  rfl

/-- Neither infinite nor below the normal range: the first bit of the mantissa is not stored. -/
theorem unpack_normal {b : BitVec Format.binary64.numBits} (hinfinite : unpackExponent b ≠ -1#11)
    (hzero : unpackExponent b ≠ 0#11) : ∃ hpos, UnpackedFloat.unpack Format.binary64 b =
      .finite (Sign.ofBitVec (unpackSign b)) (1#1 ++ unpackMantissa b).toNat
        ((unpackExponent b).toNat - 1075) hpos := by
  have hpos : 0 < (1#1 ++ unpackMantissa b).toNat := by
    rw [toNat_one_append]
    omega
  have hbias : ((Format.binary64.exponentBias : Nat) : Int) +
      (Format.binary64.mantissaBitsWithoutImplicit : Nat) = 1075 := rfl
  refine ⟨hpos, ?_⟩
  unfold UnpackedFloat.unpack
  dsimp only
  rw [if_neg hinfinite, if_neg hzero]
  exact finite_congr rfl rfl (congrArg (((unpackExponent b).toNat : Int) - ·) hbias)

theorem unpack_pack {m : Nat} {e : Int} (hpos : 0 < m) (hm : 2 ^ 52 ≤ m ∧ m < 2 ^ 53)
    (he : -1074 ≤ e ∧ e ≤ 971) :
    (Float.Model.pack (.finite .positive m e hpos)).unpack = .finite .positive m e hpos := by
  have hexponent : (BitVec.ofNat 11 (e + 1075).toNat).toNat = (e + 1075).toNat := by
    rw [BitVec.toNat_ofNat, Nat.mod_eq_of_lt (by omega)]
  have hmantissa : (1#1 ++ BitVec.ofNat 52 m).toNat = m := by
    rw [toNat_one_append, BitVec.toNat_ofNat]
    omega
  have hne : ∀ v : BitVec 11, v.toNat ≠ (e + 1075).toNat →
      unpackExponent (packComponents Format.binary64 .positive
        (BitVec.ofNat 11 (e + 1075).toNat) (BitVec.ofNat 52 m)) ≠ v := by
    rintro v hv rfl
    rw [unpackExponent_packComponents, hexponent] at hv
    exact hv rfl
  have hone : (-1#11).toNat = 2047 := rfl
  unfold Float.Model.unpack
  rw [toBitVec_pack hpos hm he]
  obtain ⟨_, hunpack⟩ := unpack_normal (hne (-1#11) (by omega)) (hne 0#11 (by simp; omega))
  rw [hunpack]
  refine finite_congr (by rw [unpackSign_positive]; rfl) ?_ ?_
  · rw [unpackMantissa_packComponents, hmantissa]
  · rw [unpackExponent_packComponents, hexponent]
    omega

theorem toNat_bits_pack {m : Nat} {e : Int} (hpos : 0 < m) (hm : 2 ^ 52 ≤ m ∧ m < 2 ^ 53)
    (he : -1074 ≤ e ∧ e ≤ 971) :
    (Float.Model.pack (.finite .positive m e hpos)).toBits.toNat =
      (e + 1075).toNat * 2 ^ 52 + (m - 2 ^ 52) := by
  rw [← UInt64.toNat_toBitVec, toBitVec_pack hpos hm he]
  unfold packComponents
  rw [BitVec.toNat_append, BitVec.toNat_append, BitVec.toNat_ofNat, BitVec.toNat_ofNat,
    ← Nat.shiftLeft_add_eq_or_of_lt (Nat.mod_lt _ (by norm_num)), Nat.shiftLeft_eq]
  simp [Sign.toBitVec]
  omega

/-! ## Numbers between one and `2 ^ 53` -/

/-- A binary64 number has a value between one and `2 ^ 53`. All bits of its mantissa are there. -/
structure StandsFor (x : Float) (v : Rat) : Prop where
  packed : ∃ (m : Nat) (e : Int) (hm : 0 < m),
    x.toModel = Float.Model.pack (.finite .positive m e hm) ∧
      (2 ^ 52 ≤ m ∧ m < 2 ^ 53) ∧ v = m * 2 ^ e
  one_le : 1 ≤ v
  le : v ≤ 2 ^ 53

theorem exponent_bounds {m : Nat} {e : Int} (hm : 2 ^ 52 ≤ m ∧ m < 2 ^ 53)
    (hone : (1 : Rat) ≤ m * 2 ^ e) (hle : (m * 2 ^ e : Rat) ≤ 2 ^ 53) : -52 ≤ e ∧ e ≤ 1 := by
  have hpos : (0 : Rat) < 2 ^ e := zpow_pos (by norm_num) e
  have hm₁ : (2 ^ 52 : Rat) ≤ m := by exact_mod_cast hm.1
  have hm₂ : (m : Rat) < 2 ^ 53 := by exact_mod_cast hm.2
  have hlow : (2 : Rat) ^ (-53 : Int) < 2 ^ e := by
    have : (1 : Rat) < 2 ^ 53 * 2 ^ e := hone.trans_lt (mul_lt_mul_of_pos_right hm₂ hpos)
    rw [zpow_neg]
    norm_num at this ⊢
    linarith
  have hhigh : (2 : Rat) ^ e ≤ 2 ^ (1 : Int) := by
    have : (2 ^ 52 * 2 ^ e : Rat) ≤ 2 ^ 53 := (mul_le_mul_of_nonneg_right hm₁ hpos.le).trans hle
    norm_num at this ⊢
    linarith
  have h₁ := (zpow_lt_zpow_iff_right₀ (by norm_num)).mp hlow
  have h₂ := (zpow_le_zpow_iff_right₀ (by norm_num)).mp hhigh
  omega

theorem StandsFor.unpack {x : Float} {v : Rat} (h : StandsFor x v) :
    ∃ (m : Nat) (e : Int) (hm : 0 < m), x.toModel.unpack = .finite .positive m e hm ∧
      (2 ^ 52 ≤ m ∧ m < 2 ^ 53) ∧ v = m * 2 ^ e := by
  obtain ⟨m, e, hpos, hx, hm, rfl⟩ := h.packed
  have he := exponent_bounds hm h.one_le h.le
  exact ⟨m, e, hpos, by rw [hx, unpack_pack hpos hm (by omega)], hm, rfl⟩

/-- **The rounded result** of an operation stands for a faithfully rounded value. -/
theorem standsFor_round {m : Nat} {e : Int} {acc : Accuracy} {v : Rat}
    (h : Truncates (ExtendedMantissa.ofMantissaAndAccuracy m acc) e v) (hm : 2 ^ 52 ≤ m)
    (hone : 1 ≤ v) (hle : v ≤ 2 ^ 53) : ∃ w, StandsFor (.ofModel (.pack
      (roundWithAccuracy Format.binary64 .positive m e acc))) w ∧ Faithful v w := by
  have hlow : -1022 ≤ m.log2 + e := by
    have hlog : ((m + 1 : Nat) : Rat) ≤ 2 ^ ((m.log2 + 1 : Nat) : Int) := by
      rw [zpow_natCast]
      exact_mod_cast Nat.lt_log2_self
    have hlt := h.lt
    rw [mantissa_ofMantissaAndAccuracy] at hlt
    have : (2 : Rat) ^ (0 : Int) < 2 ^ (((m.log2 + 1 : Nat) : Int) + e) := by
      rw [zpow_add₀ (by norm_num), zpow_zero]
      exact hone.trans_lt (hlt.trans_le
        (mul_le_mul_of_nonneg_right hlog (zpow_pos (by norm_num) e).le))
    have := (zpow_lt_zpow_iff_right₀ (by norm_num)).mp this
    omega
  obtain ⟨n, k, hn, hround, hbits, hbits', hfaithful⟩ := roundWithAccuracy_faithful h hm hlow
  have hpacked := congrArg Float.Model.pack hround
  refine ⟨n * 2 ^ k, ⟨⟨n, k, hn, hpacked, ⟨hbits, hbits'⟩, rfl⟩, ?_, ?_⟩, hfaithful⟩
  · exact_mod_cast hfaithful.natCast_le (n := 1) (by norm_num) (by exact_mod_cast hone)
  · exact_mod_cast hfaithful.le_natCast (n := 2 ^ 53) le_rfl (by exact_mod_cast hle)

theorem truncates_exact (m : Nat) (e : Int) :
    Truncates (ExtendedMantissa.ofMantissaAndAccuracy m .exact) e (m * 2 ^ e) :=
  ⟨le_rfl, mul_lt_mul_of_pos_right (by exact_mod_cast Nat.lt_succ_self m)
    (zpow_pos (by norm_num) e), fun _ => ⟨rfl, rfl⟩⟩

theorem StandsFor.mul {x y : Float} {p q : Rat} (hx : StandsFor x p) (hy : StandsFor y q)
    (hle : p * q ≤ 2 ^ 53) : ∃ w, StandsFor (x * y) w ∧ Faithful (p * q) w := by
  obtain ⟨m, e, hm, hux, hmx, rfl⟩ := hx.unpack
  obtain ⟨n, k, hn, huy, hny, rfl⟩ := hy.unpack
  have hvalue : (m * 2 ^ e * (n * 2 ^ k) : Rat) = (m * n : Nat) * 2 ^ (e + k) := by
    rw [zpow_add₀ (by norm_num)]
    push_cast
    ring
  have hmul : x * y = .ofModel (.pack
      (roundWithAccuracy Format.binary64 .positive (m * n) (e + k) .exact)) := by
    show Float.ofModel (.pack (UnpackedFloat.mul Format.binary64 x.toModel.unpack
      y.toModel.unpack)) = _
    rw [hux, huy]
    rfl
  have hone := one_le_mul_of_one_le_of_one_le hx.one_le hy.one_le
  rw [hvalue] at hle hone ⊢
  rw [hmul]
  exact standsFor_round (truncates_exact _ _) (by nlinarith) hone hle

/-- The fraction that is left of a quotient. -/
theorem truncates_div (a : Nat) {b : Nat} (hb : 0 < b) (e : Int) :
    Truncates (ExtendedMantissa.ofMantissaAndAccuracy (a / b) (accuracyOfFraction (a % b) b)) e
      (a / b * 2 ^ e) := by
  have hpos : (0 : Rat) < 2 ^ e := zpow_pos (by norm_num) e
  have hb' : (0 : Rat) < b := by exact_mod_cast hb
  refine ⟨?_, ?_, fun h => ?_⟩
  · rw [mantissa_ofMantissaAndAccuracy]
    exact mul_le_mul_of_nonneg_right Nat.cast_div_le hpos.le
  · rw [mantissa_ofMantissaAndAccuracy]
    refine mul_lt_mul_of_pos_right ?_ hpos
    rw [div_lt_iff₀ hb']
    rw [← Nat.cast_mul, Nat.cast_lt, add_mul, one_mul]
    exact Nat.lt_div_mul_add hb
  · rw [mantissa_ofMantissaAndAccuracy] at h
    have hdvd : a % b = 0 := by
      have := mul_right_cancel₀ hpos.ne' h
      rw [div_eq_iff hb'.ne'] at this
      have hab : a = a / b * b := by exact_mod_cast this
      have := Nat.div_add_mod a b
      rw [mul_comm] at this
      omega
    rw [accuracyOfFraction, if_pos hdvd]
    exact ⟨rfl, rfl⟩

/-- The quotient of mantissas of 53 bits is taken with 53 further bits. -/
theorem divCore_eq {m n : Nat} {e k : Int} (hm : 2 ^ 52 ≤ m ∧ m < 2 ^ 53)
    (hn : 2 ^ 52 ≤ n ∧ n < 2 ^ 53) (hek : -1021 ≤ e - k) : divCore Format.binary64 m e n k =
      ((m <<< 53) / n, e - k - 53, accuracyOfFraction ((m <<< 53) % n) n) := by
  have hlog : m.log2 = 52 ∧ n.log2 = 52 :=
    ⟨(Nat.log2_eq_iff (by omega)).mpr hm, (Nat.log2_eq_iff (by omega)).mpr hn⟩
  have htarget : Format.binary64.targetExponent (totalExponent m e - totalExponent n k) =
      e - k - 53 := by
    rw [targetExponent_eq, totalExponent, totalExponent, hlog.1, hlog.2]
    omega
  have hshift : (e - k - (e - k - 53)).toNat = 53 := by omega
  unfold divCore
  simp only [htarget, min_eq_right (show e - k - 53 ≤ e - k by omega), hshift]

theorem StandsFor.div {x y : Float} {p q : Rat} (hx : StandsFor x p) (hy : StandsFor y q)
    (hone : 1 ≤ p / q) (hle : p / q ≤ 2 ^ 53) : ∃ w, StandsFor (x / y) w ∧ Faithful (p / q) w := by
  obtain ⟨m, e, hm, hux, hmx, rfl⟩ := hx.unpack
  obtain ⟨n, k, hn, huy, hny, rfl⟩ := hy.unpack
  have hvalue : (m * 2 ^ e / (n * 2 ^ k) : Rat) = (m <<< 53 : Nat) / n * 2 ^ (e - k - 53) := by
    rw [Nat.shiftLeft_eq, zpow_sub₀ (by norm_num), zpow_sub₀ (by norm_num)]
    have : (n : Rat) ≠ 0 := by exact_mod_cast hn.ne'
    have := (zpow_pos (by norm_num : (0 : Rat) < 2) k).ne'
    push_cast
    field_simp
  have he := exponent_bounds hmx hx.one_le hx.le
  have hk := exponent_bounds hny hy.one_le hy.le
  have hdiv : x / y = .ofModel (.pack (roundWithAccuracy Format.binary64 .positive ((m <<< 53) / n)
      (e - k - 53) (accuracyOfFraction ((m <<< 53) % n) n))) := by
    have hcore := divCore_eq hmx hny (show -1021 ≤ e - k by omega)
    show Float.ofModel (.pack (UnpackedFloat.div Format.binary64 x.toModel.unpack
      y.toModel.unpack)) = _
    rw [hux, huy]
    show Float.ofModel (.pack (roundWithAccuracy Format.binary64 .positive
      (divCore Format.binary64 m e n k).1 (divCore Format.binary64 m e n k).2.1
      (divCore Format.binary64 m e n k).2.2)) = _
    rw [hcore]
  have hbits : 2 ^ 52 ≤ (m <<< 53) / n := by
    rw [Nat.le_div_iff_mul_le hn, Nat.shiftLeft_eq]
    omega
  rw [hvalue] at hone hle ⊢
  rw [hdiv]
  exact standsFor_round (truncates_div _ hn _) hbits hone hle

/-! ## Natural numbers -/

theorem StandsFor.one : StandsFor (Float.ofBits 0x3FF0000000000000) 1 :=
  ⟨⟨2 ^ 52, -52, by norm_num, by rfl, by norm_num, by norm_num [zpow_neg]⟩, le_rfl, by norm_num⟩

/-- A word below `2 ^ 53` is converted exactly. -/
theorem StandsFor.ofUInt64 {n : Nat} (hpos : 0 < n) (hn : n < 2 ^ 53) :
    StandsFor n.toUInt64.toFloat n := by
  have hnat : n.toUInt64.toNat = n := by
    rw [Nat.toUInt64_eq, UInt64.toNat_ofNat']
    exact Nat.mod_eq_of_lt (by omega)
  have hlog : n.log2 ≤ 52 := by
    have := (Nat.log2_lt hpos.ne').mpr hn
    omega
  have htarget : (0 - Format.binary64.targetExponent (totalExponent n 0)).toNat = 52 - n.log2 := by
    rw [targetExponent_eq, totalExponent]
    omega
  have hconvert : n.toUInt64.toFloat = .ofModel (.pack (roundWithAccuracy Format.binary64 .positive
      (n <<< (52 - n.log2)) (0 - (52 - n.log2 : Nat)) .exact)) := by
    have hgt : compare (n : Int) 0 = .gt := Int.compare_eq_gt.mpr (by omega)
    show Float.ofModel (.pack (UnpackedFloat.ofNat Format.binary64 n.toUInt64.toNat)) = _
    rw [hnat]
    unfold UnpackedFloat.ofNat UnpackedFloat.ofInt UnpackedFloat.normalize
    simp only [hgt, Int.toNat_natCast]
    unfold UnpackedFloat.round decreaseExponent
    simp only [htarget]
  have hvalue : (n : Rat) =
      (n <<< (52 - n.log2) : Nat) * 2 ^ ((0 : Int) - (52 - n.log2 : Nat)) := by
    rw [Nat.shiftLeft_eq, zero_sub, zpow_neg, zpow_natCast]
    push_cast
    rw [mul_assoc, mul_inv_cancel₀ (by positivity), mul_one]
  have hbits : 2 ^ 52 ≤ n <<< (52 - n.log2) := by
    have hself := Nat.log2_self_le hpos.ne'
    calc
      2 ^ 52 = 2 ^ n.log2 * 2 ^ (52 - n.log2) := by rw [← Nat.pow_add]; congr 1; omega
      _ ≤ n * 2 ^ (52 - n.log2) := Nat.mul_le_mul_right _ hself
      _ = _ := (Nat.shiftLeft_eq _ _).symm
  have hexact := truncates_exact (n <<< (52 - n.log2)) (0 - (52 - n.log2 : Nat))
  rw [← hvalue] at hexact
  obtain ⟨w, hw, hfaithful⟩ := standsFor_round hexact hbits (by exact_mod_cast hpos)
    (by exact_mod_cast hn.le)
  rw [hconvert]
  rwa [hfaithful.eq_natCast hn.le] at hw

/-- So is every natural number below `2 ^ 53`. -/
theorem StandsFor.ofNat {n : Nat} (hpos : 0 < n) (hn : n < 2 ^ 53) :
    StandsFor (Scalar.ofNat n) n := by
  have hconvert : (Scalar.ofNat n : Float) =
      n.toUInt64.toFloat * Float.ofBits 0x3FF0000000000000 := by
    show Float.ofScientific n false 0 = _
    unfold Float.ofScientific
    rw [dif_pos ⟨hn, by norm_num⟩]
    rfl
  obtain ⟨w, hw, hfaithful⟩ := (StandsFor.ofUInt64 hpos hn).mul StandsFor.one
    (by rw [mul_one]; exact_mod_cast hn.le)
  rw [mul_one] at hfaithful
  rw [hconvert]
  rwa [hfaithful.eq_natCast hn.le] at hw

/-! ## Rounding to integers -/

theorem StandsFor.ofFloat {x : Float} {v : Rat} (h : StandsFor x v) :
    ∃ (m : Nat) (e : Int), Decimal.Binary.ofFloat x = .finite false m e ∧ v = m * 2 ^ e := by
  obtain ⟨m, e, hpos, hx, hm, rfl⟩ := h.packed
  have he := exponent_bounds hm h.one_le h.le
  have hbits : x.toBits.toNat = (e + 1075).toNat * 2 ^ 52 + (m - 2 ^ 52) := by
    show x.toModel.toBits.toNat = _
    rw [hx, toNat_bits_pack hpos hm (by omega)]
  refine ⟨m, e, ?_, rfl⟩
  have h63 : Decimal.twoTo 63 = 2 ^ 63 := rfl
  have h52 : Decimal.twoTo 52 = 2 ^ 52 := rfl
  have h11 : Decimal.twoTo 11 = 2 ^ 11 := rfl
  have hsign : x.toBits.toNat / 2 ^ 63 = 0 := by omega
  have hbiased : x.toBits.toNat / 2 ^ 52 % 2 ^ 11 = (e + 1075).toNat := by omega
  have hfraction : x.toBits.toNat % 2 ^ 52 = m - 2 ^ 52 := by omega
  unfold Decimal.Binary.ofFloat
  simp only [h63, h52, h11, hsign, hbiased, hfraction]
  rw [if_neg (by omega), if_neg (by omega), Nat.sub_add_cancel hm.1,
    show Int.ofNat (e + 1075).toNat - 1075 = e by rw [Int.ofNat_eq_natCast]; omega]
  rfl

/-- A number is rounded like its value. -/
theorem StandsFor.toNat_round {x : Float} {v : Rat} (h : StandsFor x v) :
    (Scalar.round x).toNat = (Scalar.round v).toNat := by
  obtain ⟨m, e, hx, hv⟩ := h.ofFloat
  have hround : (Scalar.round x).toNat = Decimal.roundHalfEven (Decimal.Binary.quotient m e).1
      (Decimal.Binary.quotient m e).2 := by
    show (((Decimal.Binary.ofFloat x).round?).getD 0).toNat = _
    rw [hx]
    rfl
  rw [hround, hv, Decimal.Binary.eq_quotient, toNat_round_div _ (Decimal.Binary.quotient_pos m e)]

/-- Zero times a number is rounded to zero. -/
theorem StandsFor.toNat_round_zero_mul {y : Float} {q : Rat} (h : StandsFor y q) :
    (Scalar.round (Scalar.ofNat 0 * y)).toNat = 0 := by
  obtain ⟨n, k, hn, huy, -, -⟩ := h.unpack
  have hzero : (Scalar.ofNat 0 : Float).toModel.unpack = .zero .positive := by rfl
  have hmul : (Scalar.ofNat 0 * y : Float) = .ofModel (.pack (.zero .positive)) := by
    show Float.ofModel (.pack (UnpackedFloat.mul Format.binary64
      (Scalar.ofNat 0 : Float).toModel.unpack y.toModel.unpack)) = _
    rw [hzero, huy]
    rfl
  have hparts : Decimal.Binary.ofFloat (.ofModel (.pack (.zero .positive))) =
      .finite false 0 (-1074) := by rfl
  rw [hmul]
  show (((Decimal.Binary.ofFloat (.ofModel (.pack (.zero .positive)))).round?).getD 0).toNat = 0
  rw [hparts, Decimal.Binary.round?_zero]
  rfl

end Regrid

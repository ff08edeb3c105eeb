import Mathlib.Data.Nat.Cast.Order.Field
import Mathlib.Tactic.Positivity
import Regrid.Error
import Regrid.Proofs.Outcome
import Regrid.Proofs.Rounding

/-!
# Integers that numbers name

A number between zero and a size is truncated to an integer between zero and that size
(`exists_toInt`), and an integer of 64 bits is stored as it is (`toIdentifier_whole`).
-/

namespace Regrid

/-- The integer next to a number on the side of zero, if the number is not negative. -/
theorem Decimal.Binary.truncate?_of_toRat? {b : Decimal.Binary} {q : Rat}
    (h : b.toRat? = some q) (hq : 0 ≤ q) :
    ∃ i : Nat, b.truncate? = some (i : Int) ∧ (i : Rat) ≤ q := by
  cases b with
  | undefined => cases h
  | infinite negative => cases h
  | finite negative m e =>
    have hfloor : (((quotient m e).1 / (quotient m e).2 : Nat) : Rat) ≤
        ((quotient m e).1 : Rat) / (quotient m e).2 := Nat.cast_div_le
    cases negative with
    | false => exact ⟨_, rfl, hfloor.trans_eq (Option.some.inj h)⟩
    | true =>
      obtain rfl : -(((quotient m e).1 : Rat) / (quotient m e).2) = q := Option.some.inj h
      -- below a sign, only zero is not negative
      have hzero : (quotient m e).1 / (quotient m e).2 = 0 := by
        have hle := hfloor.trans (neg_nonneg.mp hq)
        exact Nat.le_zero.mp (by exact_mod_cast hle)
      refine ⟨0, ?_, by exact_mod_cast hq⟩
      show some (-(((quotient m e).1 / (quotient m e).2 : Nat) : Int)) = some ((0 : Nat) : Int)
      rw [hzero]
      rfl

/-- A whole number is its own truncation. -/
theorem Decimal.Binary.truncate?_of_den {b : Decimal.Binary} {q : Rat} (h : b.toRat? = some q)
    (hq : q.den = 1) : b.truncate? = some q.num := by
  cases b with
  | undefined => cases h
  | infinite negative => cases h
  | finite negative m e =>
    obtain ⟨z, rfl⟩ : ∃ z : Int, (z : Rat) = q := ⟨q.num, Rat.coe_int_num_of_den_eq_one hq⟩
    have hd : (0 : Rat) < (quotient m e).2 := by exact_mod_cast quotient_pos m e
    have hfloor : ∀ w : Int, ((quotient m e).1 : Rat) / (quotient m e).2 = w →
        (((quotient m e).1 / (quotient m e).2 : Nat) : Int) = w := by
      intro w hw
      rw [div_eq_iff hd.ne'] at hw
      have hmul : ((quotient m e).1 : Int) = w * (quotient m e).2 := by exact_mod_cast hw
      rw [Int.natCast_ediv, hmul, Int.mul_ediv_cancel _ (by exact_mod_cast hd.ne')]
    rw [Rat.num_intCast]
    cases negative with
    | false => exact congrArg some (hfloor z (Option.some.inj h))
    | true =>
      have hw : ((quotient m e).1 : Rat) / (quotient m e).2 = (-z : Int) := by
        rw [Int.cast_neg, ← Option.some.inj h]
        exact (neg_neg _).symm
      show some (-(((quotient m e).1 / (quotient m e).2 : Nat) : Int)) = some z
      rw [hfloor _ hw, neg_neg]

namespace Number

theorem toInt_whole (n : Int) : (whole n).toInt = .ok n := rfl

theorem mapM_toInt_whole (ns : List Int) : (ns.map whole).mapM toInt = .ok ns :=
  (mapM_map_ok (g := id) fun n _ => toInt_whole n).trans (congrArg _ (List.map_id _))

theorem compare?_of_toRat? {x : Number} {q : Rat} (hx : x.toRat? = some q) (n : Int) :
    x.compare? (whole n) = some (if q < n then .lt else if q = n then .eq else .gt) := by
  unfold compare?
  rw [hx]
  rfl

/-- A number that is not finite compares with all integers alike. -/
theorem compare?_of_not_finite {x : Number} (hx : x.toRat? = none) (m n : Int) :
    x.compare? (whole m) = x.compare? (whole n) := by
  unfold compare?
  rw [hx]
  rfl

theorem below_iff {x : Number} {q : Rat} (hx : x.toRat? = some q) (n : Int) :
    x.below n = true ↔ q < n := by
  unfold below
  rw [compare?_of_toRat? hx]
  by_cases h : q < n
  · simp [h]
  · by_cases he : q = n <;> simp [h, he]

theorem above_iff {x : Number} {q : Rat} (hx : x.toRat? = some q) (n : Int) :
    x.above n = true ↔ (n : Rat) < q := by
  unfold above
  rw [compare?_of_toRat? hx]
  rcases lt_trichotomy q n with h | h | h
  · simp [h, not_lt.mpr h.le]
  · simp [h]
  · simp [h, not_lt.mpr h.le, h.ne']

theorem atLeast_iff {x : Number} {q : Rat} (hx : x.toRat? = some q) (n : Int) :
    x.atLeast n = true ↔ (n : Rat) ≤ q := by
  unfold atLeast above
  rw [compare?_of_toRat? hx]
  rcases lt_trichotomy q n with h | h | h
  · simp [h, not_le.mpr h]
  · simp [h]
  · simp [h.le, not_lt.mpr h.le, h.ne']

/-- Between two integers there are finite numbers only. -/
theorem isSome_toRat? {x : Number} {m n : Int} (hlow : x.atLeast m = true)
    (hhigh : x.below n = true) : ∃ q, x.toRat? = some q := by
  cases hx : x.toRat? with
  | some q => exact ⟨q, rfl⟩
  | none =>
    exfalso
    unfold atLeast above at hlow
    unfold below at hhigh
    rw [compare?_of_not_finite hx m n, beq_iff_eq.mp hhigh] at hlow
    exact absurd hlow (by decide)

/-- What a real number is truncated to is told by its parts. -/
theorem toInt_real {x : Float} {q : Rat} {n : Int} (hx : (real x).toRat? = some q)
    (hn : (Decimal.Binary.ofFloat x).truncate? = some n) : (real x).toInt = .ok n := by
  have htruncate : (real x).truncate = .ok n := by
    simp only [truncate]
    split
    · rename_i hb
      rw [toRat?, hb] at hx
      cases hx
    · rename_i hb
      rw [toRat?, hb] at hx
      cases hx
    · rw [hn]
      rfl
  unfold toInt
  rw [htruncate]
  rfl

/-- A number that is an integer names it. -/
theorem toInt_of_den {x : Number} {q : Rat} (hx : x.toRat? = some q) (hq : q.den = 1) :
    x.toInt = .ok q.num := by
  cases x with
  | whole n =>
    obtain rfl : (n : Rat) = q := Option.some.inj hx
    rw [Rat.num_intCast]
    rfl
  | real x => exact toInt_real hx (Decimal.Binary.truncate?_of_den hx hq)

/-- A finite number that is not negative is truncated to an integer that is not above it. -/
theorem toInt_of_toRat? {x : Number} {q : Rat} (hx : x.toRat? = some q) (hq : 0 ≤ q) :
    ∃ i : Nat, x.toInt = .ok i ∧ (i : Rat) ≤ q := by
  cases x with
  | whole n =>
    obtain rfl : (n : Rat) = q := Option.some.inj hx
    have hn : ((n.toNat : Nat) : Int) = n := Int.toNat_of_nonneg (by exact_mod_cast hq)
    exact ⟨n.toNat, congrArg Except.ok hn.symm, by exact_mod_cast hn.le⟩
  | real x =>
    obtain ⟨i, hi, hle⟩ := Decimal.Binary.truncate?_of_toRat? hx hq
    exact ⟨i, toInt_real hx hi, hle⟩

/-- A number from zero on and below a size is truncated to an index below that size. -/
theorem exists_toInt {x : Number} {n : Nat} (hlow : x.atLeast 0 = true)
    (hhigh : x.below n = true) : ∃ i : Nat, x.toInt = .ok i ∧ i < n := by
  obtain ⟨q, hq⟩ := isSome_toRat? hlow hhigh
  rw [below_iff hq] at hhigh
  rw [atLeast_iff hq] at hlow
  obtain ⟨i, hi, hle⟩ := toInt_of_toRat? hq (by exact_mod_cast hlow)
  exact ⟨i, hi, by exact_mod_cast hle.trans_lt hhigh⟩

/-- The index that a number names in a list of a given size. -/
def place? (x : Number) (size : Nat) : Option Nat :=
  if x.atLeast 0 && x.below size then x.toInt.toOption.map Int.toNat else none

theorem place?_eq_some {x : Number} {size i : Nat} (h : x.place? size = some i) :
    (x.atLeast 0 && x.below size) = true ∧ x.toInt = .ok i ∧ i < size := by
  unfold place? at h
  split at h
  · rename_i hx
    rw [Bool.and_eq_true] at hx
    obtain ⟨j, hj, hlt⟩ := exists_toInt hx.1 hx.2
    rw [hj] at h
    obtain rfl : j = i := Option.some.inj h
    exact ⟨Bool.and_eq_true_iff.mpr hx, hj, hlt⟩
  · cases h

theorem place?_eq_none {x : Number} {size : Nat} (h : x.place? size = none) :
    (x.atLeast 0 && x.below size) = false := by
  by_contra hx
  rw [Bool.not_eq_false] at hx
  obtain ⟨i, hi, -⟩ := exists_toInt (Bool.and_eq_true_iff.mp hx).1 (Bool.and_eq_true_iff.mp hx).2
  rw [place?, if_pos hx, hi] at h
  cases h

/-- The index that a number names in a list of a given size if it is stored first. -/
def storedPlace? (x : Number) (size : Nat) : Option Nat := do
  let n ← x.toIdentifier.toOption
  if 0 ≤ n ∧ n < size then some n.toNat else none

theorem storedPlace?_eq_some {x : Number} {size i : Nat} : x.storedPlace? size = some i ↔
    ∃ j, x.toIdentifier = .ok j ∧ (0 ≤ j ∧ j < size) ∧ j.toNat = i := by
  unfold storedPlace?
  cases x.toIdentifier with
  | error e => exact iff_of_false nofun nofun
  | ok j =>
    show (if 0 ≤ j ∧ j < size then some j.toNat else none) = some i ↔ _
    simp

theorem inInt64_iff {n : Int} : inInt64 n = true ↔ -2 ^ 63 ≤ n ∧ n < 2 ^ 63 := by
  have hleast : leastInt64 = -2 ^ 63 := rfl
  unfold inInt64
  rw [Bool.and_eq_true, decide_eq_true_eq, decide_eq_true_eq, hleast, neg_neg]

/-- An integer of 64 bits is stored as it is. -/
theorem toIdentifier_whole {n : Int} (h : inInt64 n = true) : (whole n).toIdentifier = .ok n := by
  unfold toIdentifier identifier
  simp only
  rw [if_pos h]
  rfl

/-- No integer is stored as another one. -/
theorem eq_of_toIdentifier_whole {n k : Int} (h : (whole n).toIdentifier = .ok k) : k = n := by
  by_cases hbits : inInt64 n = true
  · exact Except.ok.inj (h.symm.trans (toIdentifier_whole hbits))
  · unfold toIdentifier identifier at h
    simp only at h
    rw [if_neg hbits] at h
    cases h

end Number

end Regrid

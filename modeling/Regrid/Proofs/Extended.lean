import Mathlib.Algebra.Field.Rat
import Mathlib.Algebra.Order.Ring.Rat
import Regrid.Scalar

/-!
# Exact arithmetic with values that are not finite

Over the rationals every value is a number. A statement about fields with gaps in exact arithmetic
needs the other values too: `Extended` has them, and calculates with them as binary arithmetic
does, but without rounding. Zero has no sign, so a positive number divided by zero is positive
infinity.

The numbers calculate as the rationals do (`number_add` and so on); only a division by zero leaves
them.
-/

namespace Regrid

/-- A rational number, an infinity or no number. -/
inductive Extended where
  | number (q : Rat)
  | infinite (negative : Bool)
  | undefined
  deriving DecidableEq

namespace Extended

/-- Whether a value is below zero. -/
def isNegative : Extended → Bool
  | number q => q < 0
  | infinite negative => negative
  | undefined => false

/-- The opposite. -/
def neg : Extended → Extended
  | number q => number (-q)
  | infinite negative => infinite !negative
  | undefined => undefined

/-- The sum. Infinities of both signs have none. -/
def add : Extended → Extended → Extended
  | number p, number q => number (p + q)
  | number _, infinite negative => infinite negative
  | infinite negative, number _ => infinite negative
  | infinite negative, infinite negative' =>
    if negative = negative' then infinite negative else undefined
  | undefined, _ => undefined
  | _, undefined => undefined

/-- The product. An infinity times zero has none. -/
def mul : Extended → Extended → Extended
  | number p, number q => number (p * q)
  | undefined, _ => undefined
  | _, undefined => undefined
  | x, y =>
    if x = number 0 ∨ y = number 0 then undefined else infinite (x.isNegative != y.isNegative)

/-- The quotient. -/
def div : Extended → Extended → Extended
  | number p, number q =>
    if q = 0 then if p = 0 then undefined else infinite (p < 0) else number (p / q)
  | number _, infinite _ => number 0
  | infinite negative, number q => infinite (negative != decide (q < 0))
  | infinite _, infinite _ => undefined
  | undefined, _ => undefined
  | _, undefined => undefined

/-- The order. What is no number is not in it. -/
def below : Extended → Extended → Bool
  | number p, number q => p < q
  | number _, infinite negative => !negative
  | infinite negative, number _ => negative
  | infinite negative, infinite negative' => negative && !negative'
  | undefined, _ => false
  | _, undefined => false

/-- Equality of values. What is no number is equal to nothing. -/
def same : Extended → Extended → Bool
  | undefined, _ => false
  | x, y => x = y

/-- A rational number, if the value is one. -/
def toRat : Extended → Rat
  | number q => q
  | _ => 0

instance : Scalar Extended where
  zero := number 0
  one := number 1
  add := add
  sub x y := add x (neg y)
  mul := mul
  div := div
  neg := neg
  lt x y := below x y = true
  le x y := (below x y || same x y) = true
  beq := same
  ofInt z := number z
  isNaN x := x = undefined
  isFinite x := x matches number _
  undefined := undefined
  toFloat
    | number q => Scalar.toFloat q
    | infinite negative => (if negative then -1.0 else 1.0) / 0.0
    | undefined => 0.0 / 0.0
  ceil x := Scalar.ceil x.toRat
  round x := Scalar.round x.toRat
  decLt _ _ := inferInstanceAs (Decidable (_ = true))
  decLe _ _ := inferInstanceAs (Decidable (_ = true))

/-! ## Numbers -/

section Numbers

variable {p q : Rat}

theorem number_zero : (0 : Extended) = number 0 := rfl

theorem number_one : (1 : Extended) = number 1 := rfl

theorem number_ofNat (n : Nat) : (Scalar.ofNat n : Extended) = number n := rfl

theorem number_add : number p + number q = number (p + q) := rfl

theorem number_sub : number p - number q = number (p - q) := by
  rw [sub_eq_add_neg]
  rfl

theorem number_mul : number p * number q = number (p * q) := rfl

theorem number_div (hq : q ≠ 0) : number p / number q = number (p / q) := if_neg hq

theorem number_lt : number p < number q ↔ p < q := decide_eq_true_iff

theorem number_beq : (number p == number q) = (p == q) := by
  show decide (number p = number q) = (p == q)
  rw [Bool.eq_iff_iff, decide_eq_true_iff, beq_iff_eq, number.injEq]

theorem number_bne : (number p != number q) = (p != q) := congrArg (!·) number_beq

theorem number_ceil : Scalar.ceil (number q) = Scalar.ceil q := rfl

theorem getD_number (xs : Array Rat) (i : Nat) :
    (xs.map number).getD i 0 = number (xs.getD i 0) := by
  simp only [Array.getD_eq_getD_getElem?, Array.getElem?_map]
  cases xs[i]? <;> rfl

end Numbers

/-- A sum of numbers is one. -/
theorem sum_number (qs : List Rat) : Scalar.sum (qs.map number) = number (Scalar.sum qs) := by
  have hfold : ∀ q : Rat,
      (qs.map number).foldl (· + ·) (number q) = number (qs.foldl (· + ·) q) := by
    induction qs with
    | nil => exact fun _ => rfl
    | cons p qs ih => exact fun q => ih (q + p)
  exact hfold 0

theorem isFinite_iff {x : Extended} : Scalar.isFinite x = true ↔ x = number x.toRat := by
  cases x with
  | number q => exact iff_of_true rfl rfl
  | infinite negative => simp [Scalar.isFinite]
  | undefined => simp [Scalar.isFinite]

end Extended

end Regrid

import Regrid.Decimal.Binary

/-!
# Scalars

Every numerical definition of the library is written once, over any type with the operations
below, in a fixed order of operations. Two instances give it its two meanings: over `Float` a
definition is what runs, rounding after every step; over `Rat` it is exact, and statements about
overlaps, sums and averages are about that meaning.
-/

namespace Regrid

/-- A type of numbers to compute with. A type may have values that are no number (`isNaN`) and
values that are too large to be one (neither `isNaN` nor `isFinite`). -/
class Scalar (α : Type) extends Zero α, One α, Add α, Sub α, Mul α, Div α, Neg α, LT α, LE α,
    BEq α where
  ofInt : Int → α
  isNaN : α → Bool
  isFinite : α → Bool
  /-- The value written where there is no number. -/
  undefined : α
  /-- The binary number by which a message shows a value. -/
  toFloat : α → Float
  /-- The least integer that is not below a finite value. -/
  ceil : α → Int
  /-- The integer nearest to a finite value; of two equally near the even one. -/
  round : α → Int
  decLt : DecidableLT α
  decLe : DecidableLE α

instance Scalar.instDecidableLT {α : Type} [s : Scalar α] : DecidableLT α := s.decLt

instance Scalar.instDecidableLE {α : Type} [s : Scalar α] : DecidableLE α := s.decLe

/-- Binary64 arithmetic. -/
instance : Scalar Float where
  zero := 0.0
  one := 1.0
  ofInt := Float.ofInt
  isNaN := Float.isNaN
  isFinite := Float.isFinite
  undefined := 0.0 / 0.0
  toFloat := id
  ceil x := ((Decimal.Binary.ofFloat x).ceil?).getD 0
  round x := ((Decimal.Binary.ofFloat x).round?).getD 0
  decLt := inferInstance
  decLe := inferInstance

/-- Exact arithmetic. Every rational is a number, so the undefined value stands for none. -/
instance : Scalar Rat where
  zero := 0
  one := 1
  ofInt z := z
  isNaN _ := false
  isFinite _ := true
  undefined := 0
  toFloat q := Float.ofInt q.num / Float.ofNat q.den
  ceil := Rat.ceil
  round q := q.num.sign * Decimal.roundHalfEven q.num.natAbs q.den
  decLt := inferInstance
  decLe := inferInstance

namespace Scalar

variable {α : Type} [Scalar α]

/-- The value of a natural number. -/
def ofNat (n : Nat) : α := ofInt n

/-- The quotient of two natural numbers. -/
def ratio (p q : Nat) : α := ofNat p / ofNat q

/-- The absolute value. -/
def abs (x : α) : α := if x < 0 then -x else x

/-- Sums from the left, starting at zero. -/
def sum (xs : List α) : α := xs.foldl (· + ·) 0

/-- The sum of the products of the elements at the same place. -/
def dot (xs ys : Array α) : α := sum (Array.zipWith (· * ·) xs ys).toList

end Scalar

end Regrid

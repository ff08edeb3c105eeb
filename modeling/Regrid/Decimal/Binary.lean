/-!
# Binary numbers, taken apart

A binary64 number is a sign, a whole mantissa and a power of two. Everything the library prints,
truncates or rounds starts from these three integers, so no text and no index depends on an
approximate conversion.
-/

namespace Regrid.Decimal

/-- A power of two. -/
abbrev twoTo (n : Nat) : Nat := Nat.pow 2 n

/-- A power of ten. -/
abbrev tenTo (n : Nat) : Nat := Nat.pow 10 n

/-- What the 64 bits of a binary number say. -/
inductive Binary where
  /-- The number `± mantissa · 2 ^ exponent`. -/
  | finite (negative : Bool) (mantissa : Nat) (exponent : Int)
  | infinite (negative : Bool)
  | undefined
  deriving DecidableEq, Repr

namespace Binary

/-- The parts of a number, from its sign bit, its eleven exponent bits and its 52 fraction bits. -/
def ofFloat (x : Float) : Binary :=
  let bits : Nat := x.toBits.toNat
  let negative := bits / twoTo 63 == 1
  let biased : Nat := bits / twoTo 52 % twoTo 11
  let fraction : Nat := bits % twoTo 52
  if biased = 2047 then
    if fraction = 0 then infinite negative else undefined
  else if biased = 0 then finite negative fraction (-1074)
  else finite negative (fraction + twoTo 52) (Int.ofNat biased - 1075)

/-- The quotient of natural numbers that equals `mantissa · 2 ^ exponent`. -/
def quotient (mantissa : Nat) (exponent : Int) : Nat × Nat :=
  if 0 ≤ exponent then (mantissa * twoTo exponent.toNat, 1)
  else (mantissa, twoTo (-exponent).toNat)

/-- The integer next to a finite number on the side of zero. -/
def truncate? : Binary → Option Int
  | finite negative m e =>
    let (n, d) := quotient m e
    some (if negative then -(n / d : Nat) else (n / d : Nat))
  | _ => none

/-- The least integer that is not below a finite number. -/
def ceil? : Binary → Option Int
  | finite negative m e =>
    let (n, d) := quotient m e
    some (if negative then -(n / d : Nat) else ((n + d - 1) / d : Nat))
  | _ => none

/-- The rational value of a finite number. -/
def toRat? : Binary → Option Rat
  | finite negative m e =>
    let (n, d) := quotient m e
    let q : Rat := (n : Rat) / (d : Rat)
    some (if negative then -q else q)
  | _ => none

/-- The remainder of a division by a positive integer toward minus infinity. It is exact up to the
addition of the divisor to a negative one. -/
def modulo (x : Float) (n : Nat) : Float :=
  match ofFloat x with
  | finite negative m e =>
    let low := min e 0
    let r := m * twoTo (e - low).toNat % (n * twoTo (-low).toNat)
    let r := (Float.ofNat r).scaleB low
    if negative && r != 0.0 then -r + n.toFloat else r
  | _ => 0.0 / 0.0

end Binary

/-! ## Rounding a quotient -/

/-- The integer nearest to `n / d`; of two equally near the even one. -/
def roundHalfEven (n d : Nat) : Nat :=
  let q := n / d
  let r := n % d
  if 2 * r < d then q
  else if d < 2 * r then q + 1
  else if q % 2 = 0 then q else q + 1

/-- The integer nearest to a finite number; of two equally near the even one. -/
def Binary.round? : Binary → Option Int
  | .finite negative m e =>
    let (n, d) := Binary.quotient m e
    let r := roundHalfEven n d
    some (if negative then -(r : Int) else r)
  | _ => none

/-- The number of decimal digits of a natural number; zero has one. -/
def digitCount (n : Nat) : Nat :=
  (Nat.toDigits 10 n).length

/-- The integer `k` with `10 ^ k ≤ n / d < 10 ^ (k + 1)`, for a positive quotient. -/
def magnitude (n d : Nat) : Int :=
  if d ≤ n then (digitCount (n / d) : Int) - 1
  else
    let t := digitCount (d / n)
    if d ≤ tenTo (t - 1) * n then -((t : Int) - 1) else -(t : Int)

/-- The quotient `n / d` multiplied by a power of ten. -/
def shiftTen (n d : Nat) (k : Int) : Nat × Nat :=
  if 0 ≤ k then (n * tenTo k.toNat, d) else (n, d * tenTo (-k).toNat)

end Regrid.Decimal

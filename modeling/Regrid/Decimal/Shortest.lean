import Regrid.Decimal.Digits

/-!
# The shortest decimal that reads back

A binary number is read back from every real of its rounding interval. The shortest text of a number
has the fewest digits for which some decimal lies in that interval, and among those the decimal
nearest to the number.
-/

namespace Regrid.Decimal

/-- The interval of reals that round to a binary number, in units of `2 ^ exponent`: the number is
`centre`, the ends belong to it when `closed`. -/
structure RoundingInterval where
  low : Nat
  centre : Nat
  high : Nat
  exponent : Int
  closed : Bool

/-- The rounding interval of `m · 2 ^ e`. The gap below a power of two is half the gap above. -/
def RoundingInterval.ofBinary (m : Nat) (e : Int) : RoundingInterval :=
  let narrow := m == twoTo 52 && e != -1074
  { low := if narrow then 4 * m - 1 else 4 * m - 2
    centre := 4 * m
    high := 4 * m + 2
    exponent := e - 2
    closed := m % 2 == 0 }

/-- Whether the decimal `s · 10 ^ k` lies in the interval. -/
def RoundingInterval.holds (i : RoundingInterval) (s : Nat) (k : Int) : Bool :=
  let (n, d) := shiftTen s 1 k
  let (two, half) := Binary.quotient 1 i.exponent
  let left := n * half
  let low := i.low * two * d
  let high := i.high * two * d
  if i.closed then low ≤ left && left ≤ high else low < left && left < high

/-- The nearest decimal of `places` digits in the interval, if one of the two neighbours of the
centre on that grid lies in it. -/
def RoundingInterval.decimal? (i : RoundingInterval) (places : Nat) : Option Digits :=
  let (two, half) := Binary.quotient 1 i.exponent
  let n := i.centre * two
  let k := magnitude n half
  let unit := k - ((places : Int) - 1)
  let (n', d') := shiftTen n half (-unit)
  let down := n' / d'
  let near := roundHalfEven n' d'
  let far := if near = down then down + 1 else down
  let digits (s : Nat) : Digits :=
    if s = tenTo places then ⟨tenTo (places - 1), k + 1⟩ else ⟨s, k⟩
  if i.holds near unit then some (digits near)
  else if i.holds far unit then some (digits far)
  else none

/-- The digits of the shortest decimal that reads back as `m · 2 ^ e`, for a positive mantissa.
Seventeen digits always suffice. -/
def shortestDigits (m : Nat) (e : Int) : Digits :=
  let i := RoundingInterval.ofBinary m e
  ((List.range 17).findSome? fun p => i.decimal? (p + 1)).getD ⟨m, 0⟩

/-- Numbers from `10 ^ -4` up to below `10 ^ 16` are written positionally and always with a
point, others scientifically. -/
def shortest (x : Float) : String :=
  match Binary.ofFloat x with
  | .undefined => "nan"
  | .infinite negative => if negative then "-inf" else "inf"
  | .finite negative m e =>
    let body :=
      if m = 0 then "0.0"
      else
        let d := shortestDigits m e
        if -4 ≤ d.exponent ∧ d.exponent < 16 then d.positionalPoint else d.scientific
    if negative then "-" ++ body else body

end Regrid.Decimal

import Regrid.Decimal.Binary

/-!
# Decimal digits and their layout

A positive decimal is a row of digits with the power of ten of the first one. Two layouts write it:
positional (`0.00125`, `120.5`) and scientific (`1.25e-03`), each with or without trailing zeros.
-/

namespace Regrid.Decimal

/-- A positive decimal `d₀.d₁d₂… · 10 ^ exponent`, its digits held as one natural number. -/
structure Digits where
  significand : Nat
  /-- The power of ten of the first digit. -/
  exponent : Int
  deriving DecidableEq, Repr

/-- The characters of a natural number. -/
def digitChars (n : Nat) : List Char :=
  Nat.toDigits 10 n

/-- A row of digits without the zeros at its end. -/
def trimZeros (cs : List Char) : List Char :=
  (cs.reverse.dropWhile (· == '0')).reverse

/-- The sign and at least `width` digits of an exponent. -/
def exponentText (width : Nat) (e : Int) : String :=
  let ds := digitChars e.natAbs
  (if e < 0 then "-" else "+") ++ String.ofList (List.replicate (width - ds.length) '0' ++ ds)

namespace Digits

/-- The quotient `n / d` to `places` significant digits, ties to the even digit. -/
def rounded (places n d : Nat) : Digits :=
  let k := magnitude n d
  let (n', d') := shiftTen n d ((places : Int) - 1 - k)
  let s := roundHalfEven n' d'
  if s = tenTo places then ⟨tenTo (places - 1), k + 1⟩ else ⟨s, k⟩

/-- One digit, a point, the rest of the digits without trailing zeros, and the exponent. -/
def scientific (x : Digits) : String :=
  let ds := digitChars x.significand
  let rest := trimZeros (ds.drop 1)
  let point := if rest.isEmpty then [] else ['.']
  String.ofList (ds.take 1 ++ point ++ rest) ++ "e" ++ exponentText 2 x.exponent

/-- The digits before the point and those behind it, without trailing zeros. -/
def positionalParts (x : Digits) : List Char × List Char :=
  let ds := trimZeros (digitChars x.significand)
  if x.exponent < 0 then
    (['0'], List.replicate ((-x.exponent).toNat - 1) '0' ++ ds)
  else
    let whole := x.exponent.toNat + 1
    (ds.take whole ++ List.replicate (whole - ds.length) '0', ds.drop whole)

/-- Positional notation; a whole number has no point. -/
def positional (x : Digits) : String :=
  let (whole, rest) := x.positionalParts
  String.ofList (if rest.isEmpty then whole else whole ++ '.' :: rest)

/-- Positional notation; a whole number ends in `.0`. -/
def positionalPoint (x : Digits) : String :=
  let (whole, rest) := x.positionalParts
  String.ofList (whole ++ '.' :: if rest.isEmpty then ['0'] else rest)

end Digits

end Regrid.Decimal

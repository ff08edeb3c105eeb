import Regrid.Decimal.Digits

/-!
# Decimals of a fixed precision

Three texts of a number: a given number of significant digits in scientific notation
(`significant`), six significant digits in whichever notation is shorter (`general`), and a given
number of places behind the point (`fixed`). All round half to even on the exact value.
-/

namespace Regrid.Decimal

/-- The text of a number that is not finite, or of the sign and a text of the absolute value. -/
def withSign (x : Float) (zero : String) (body : Nat → Nat → String) : String :=
  match Binary.ofFloat x with
  | .undefined => "nan"
  | .infinite negative => if negative then "-inf" else "inf"
  | .finite negative m e =>
    if m = 0 then zero
    else
      let (n, d) := Binary.quotient m e
      if negative then "-" ++ body n d else body n d

/-- Scientific notation with `places` significant digits, trailing zeros left out; zero of either
sign is `0`. -/
def significant (places : Nat) (x : Float) : String :=
  withSign x "0" fun n d => (Digits.rounded places n d).scientific

/-- Six significant digits, trailing zeros left out: positional for exponents from `-4` to `5`,
scientific outside. -/
def general (x : Float) : String :=
  withSign x (if (Binary.ofFloat x) = .finite true 0 (-1074) then "-0" else "0") fun n d =>
    let r := Digits.rounded 6 n d
    if -4 ≤ r.exponent ∧ r.exponent < 6 then r.positional else r.scientific

/-- Exactly `places` digits behind the point. A value that rounds to zero has no sign. -/
def fixed (places : Nat) (x : Float) : String :=
  match Binary.ofFloat x with
  | .undefined => "nan"
  | .infinite negative => if negative then "-inf" else "inf"
  | .finite negative m e =>
    let (n, d) := Binary.quotient m e
    let s := roundHalfEven (n * tenTo places) d
    let ds := digitChars s
    let ds := List.replicate (places + 1 - ds.length) '0' ++ ds
    let whole := ds.take (ds.length - places)
    let rest := ds.drop (ds.length - places)
    let body := String.ofList (if rest.isEmpty then whole else whole ++ '.' :: rest)
    if negative && s != 0 then "-" ++ body else body

end Regrid.Decimal

import Regrid.Number

/-!
# Reading numerals

Settings that were stored as text are read back as numbers: a whole numeral is a sign and digits,
a real one has in addition a point, a power of ten, or one of the words for infinity and for no
number. Blanks around a numeral do not count, and a single low line may stand between two digits.
-/

namespace Regrid.Text

/-- Whether a character is a blank. -/
def isBlank (c : Char) : Bool :=
  c.isWhitespace || c.toNat == 0x0b || c.toNat == 0x0c

/-- A text without the blanks around it. -/
def strip (cs : List Char) : List Char :=
  ((cs.dropWhile isBlank).reverse.dropWhile isBlank).reverse

/-- The sign of a numeral and what follows it. -/
def splitSign : List Char → Bool × List Char
  | '-' :: cs => (true, cs)
  | '+' :: cs => (false, cs)
  | cs => (false, cs)

/-- The digits at the start of a text, with single low lines between them left out, and the rest. -/
def digitRun : List Char → List Char × List Char
  | [] => ([], [])
  | [c] => if c.isDigit then ([c], []) else ([], [c])
  | c :: d :: rest =>
    if !c.isDigit then ([], c :: d :: rest)
    else if d = '_' then
      if (rest.head?.map Char.isDigit).getD false then
        let (ds, r) := digitRun rest
        (c :: ds, r)
      else ([c], d :: rest)
    else
      let (ds, r) := digitRun (d :: rest)
      (c :: ds, r)

/-- The natural number of a row of digits. -/
def digitsValue (ds : List Char) : Nat :=
  ds.foldl (fun n c => 10 * n + (c.toNat - '0'.toNat)) 0

/-- The integer that a whole numeral stands for. -/
def integer? (s : String) : Option Int :=
  let (negative, cs) := splitSign (strip s.toList)
  match digitRun cs with
  | ([], _) => none
  | (ds, []) => some (if negative then -(digitsValue ds : Int) else digitsValue ds)
  | _ => none

/-- The power of ten at the end of a numeral; no power is the power zero. -/
def power? : List Char → Option Int
  | [] => some 0
  | c :: cs =>
    if c = 'e' ∨ c = 'E' then
      let (negative, cs) := splitSign cs
      match digitRun cs with
      | ([], _) => none
      | (ds, []) => some (if negative then -(digitsValue ds : Int) else digitsValue ds)
      | _ => none
    else none

/-- The binary number nearest to `m · 10 ^ e`. -/
def scaleTen (m : Nat) (e : Int) : Float :=
  if 0 ≤ e then Float.ofScientific m false e.toNat else Float.ofScientific m true (-e).toNat

/-- The absolute value of a real numeral. -/
def magnitude? (cs : List Char) : Option Float :=
  let word := String.ofList (cs.map Char.toLower)
  if word = "inf" ∨ word = "infinity" then some (1.0 / 0.0)
  else if word = "nan" then some (0.0 / 0.0)
  else
    let (whole, rest) := digitRun cs
    let (fraction, rest) :=
      match rest with
      | '.' :: r => digitRun r
      | r => ([], r)
    if whole.isEmpty ∧ fraction.isEmpty then none
    else
      (power? rest).map fun e =>
        scaleTen (digitsValue (whole ++ fraction)) (e - fraction.length)

/-- The number that a real numeral stands for. -/
def real? (s : String) : Option Float :=
  let (negative, cs) := splitSign (strip s.toList)
  (magnitude? cs).map fun x => if negative then -x else x

end Regrid.Text

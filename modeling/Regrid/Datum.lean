import Regrid.Number
import Regrid.Text.Quoted

/-!
# Values named in messages

A message names the values it is about: an identifier, a shape, a setting. `Datum.quoted` is the
text of a value inside another one, `Datum.plain` its text in a sentence; they differ on texts
only.
-/

namespace Regrid

/-- A value as a message shows it. -/
inductive Datum where
  | absent
  | flag (b : Bool)
  | number (x : Number)
  | text (s : String)
  /-- A number read from a stored vector of 64-bit numbers; its text tells the kind. -/
  | stored (x : Number)
  | tuple (items : List Datum)
  | list (items : List Datum)
  | record (fields : List (String × Datum))

namespace Datum

/-- An integer. -/
def int (n : Int) : Datum := number (.whole n)

/-- A real number. -/
def real (x : Float) : Datum := number (.real x)

/-- A shape, or any other tuple of natural numbers. -/
def shape (ns : List Nat) : Datum := tuple (ns.map fun n : Nat => int n)

mutual

/-- The text of a value inside another value. -/
def quoted : Datum → String
  | absent => "None"
  | flag b => if b then "True" else "False"
  | number x => x.text
  | text s => Text.quoted s
  | stored (.whole n) => "np.int64(" ++ toString n ++ ")"
  | stored (.real x) => "np.float64(" ++ Decimal.shortest x ++ ")"
  | tuple [x] => "(" ++ x.quoted ++ ",)"
  | tuple xs => "(" ++ commaSeparated xs ++ ")"
  | list xs => "[" ++ commaSeparated xs ++ "]"
  | record fs => "\x7b" ++ commaSeparatedFields fs ++ "\x7d"

/-- The texts of values between commas. -/
def commaSeparated : List Datum → String
  | [] => ""
  | [x] => x.quoted
  | x :: y :: xs => x.quoted ++ ", " ++ commaSeparated (y :: xs)

/-- The texts of named values between commas. -/
def commaSeparatedFields : List (String × Datum) → String
  | [] => ""
  | [(k, x)] => Text.quoted k ++ ": " ++ x.quoted
  | (k, x) :: y :: fs => Text.quoted k ++ ": " ++ x.quoted ++ ", " ++ commaSeparatedFields (y :: fs)

end

/-- The text of a value in a sentence. -/
def plain : Datum → String
  | text s => s
  | d => d.quoted

end Datum

end Regrid

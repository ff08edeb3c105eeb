import Regrid.Number

/-!
# Element types of fields

The values of a field are stored in one of a few types. All arithmetic is done on binary64
numbers; the element type decides to what a result is rounded or truncated when it is stored.

These are the types from and to which `apply_weights_core` and `mean_polar_rows` cast.
-/

namespace Regrid

/-- How the values of a field are stored. -/
inductive ElementType where
  | float64
  | float32
  | int64
  | int32
  | int16
  | int8
  deriving DecidableEq, Repr

namespace ElementType

/-- The element types in the order of their names below. -/
def all : List ElementType := [float64, float32, int64, int32, int16, int8]

/-- The name of a type. -/
def name : ElementType → String
  | float64 => "float64"
  | float32 => "float32"
  | int64 => "int64"
  | int32 => "int32"
  | int16 => "int16"
  | int8 => "int8"

/-- The type of a name. -/
def ofName? (s : String) : Option ElementType := all.find? fun t => t.name == s

/-- Whether values of the type have a fractional part. -/
def isFloating : ElementType → Bool
  | float64 | float32 => true
  | _ => false

/-- The type in which the values of a field are computed. -/
def computed (t : ElementType) : ElementType := if t.isFloating then t else float64

/-- The truncated value as an integer of `bits` bits, which are the lowest ones of at least 32. Of
so many bits, the least integer stands for a value that is no number or too large. -/
def storeInteger (bits : Nat) (x : Float) : Float :=
  let least : Int := -(Decimal.twoTo (max bits 32 - 1))
  let n := (Decimal.Binary.ofFloat x).truncate?.getD least
  Float.ofInt ((if least ≤ n ∧ n < -least then n else least).bmod (Decimal.twoTo bits))

/-- The stored value of a number. -/
def store : ElementType → Float → Float
  | float64, x => x
  | float32, x => x.toFloat32.toFloat
  | int64, x => storeInteger 64 x
  | int32, x => storeInteger 32 x
  | int16, x => storeInteger 16 x
  | int8, x => storeInteger 8 x

/-- A sum of values as it is held while more are added: integers are added up exactly. -/
def accumulate : ElementType → Float → Float
  | float32, x => x.toFloat32.toFloat
  | _, x => x

end ElementType

end Regrid

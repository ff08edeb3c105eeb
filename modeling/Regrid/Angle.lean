import Regrid.Scalar

/-!
# Scalars with angles

Latitudes and longitudes need the circle number and the sine with its inverse. A definition that
uses them is written once, over `Trigonometry`: over `Float` it is what runs, and over the real
numbers it is exact. Angles are in radians; degrees and minutes are converted where they come in.
-/

namespace Regrid

/-- Scalars with the functions of plane angles. -/
class Trigonometry (α : Type) extends Scalar α where
  /-- The ratio of the circumference to the diameter. -/
  pi : α
  sin : α → α
  /-- The angle between the two right ones that has a given sine. -/
  arcsin : α → α
  /-- The remainder of a division by a positive integer toward minus infinity. -/
  modulo : α → Nat → α

instance : Trigonometry Float where
  pi := 3.141592653589793
  sin := Float.sin
  arcsin := Float.asin
  modulo := Decimal.Binary.modulo

namespace Trigonometry

variable {α : Type} [Trigonometry α]

/-- The angle of a full turn. -/
def turn : α := Scalar.ofNat 2 * pi

/-- Radians per degree. -/
def degree : α := pi / Scalar.ofNat 180

/-- Radians per minute of arc. -/
def minute : α := turn / Scalar.ofNat (360 * 60)

end Trigonometry

end Regrid

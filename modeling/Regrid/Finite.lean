import Regrid.Tensor
import Regrid.Scalar

/-!
# Refusing values that are not finite

Where only finite values make sense, `checkFinite` refuses others and names every place at which one
stands. The caller says how a place is called.

Model of `check_finite`.
-/

namespace Regrid

variable {α : Type} [Scalar α]

/-- The places of the values that are not finite. -/
def nonFinitePlaces (xs : Array α) : List Nat :=
  xs.toList.zipIdx.filterMap fun (x, i) => if Scalar.isFinite x then none else some i

/-- Refuses values that are not finite (`check_finite`). A place without a name is an error of its
own. -/
def checkFinite (name : String) (xs : Array α) (place : Nat → Option Datum) :
    Except Error Unit :=
  match nonFinitePlaces xs with
  | [] => .ok ()
  | bad =>
    match bad.mapM place with
    | some places => .error (.nonFinite name places)
    | none => .error .badIndex

/-- Refuses values that are not finite, and calls a place by its number. -/
def checkAllFinite (name : String) (xs : Array α) : Except Error Unit :=
  checkFinite name xs fun i => some (.int i)

end Regrid

import Regrid.Field.Labelled

/-!
# Fields on the labels of one another

The labels of a dimension are the values of the coordinate of its name. Where the fields of a set
have different labels on a dimension, the set has all of them, in rising order, and each field is
spread over them; it misses a value wherever it had no such label.

This is how the fields that `Regridder._regrid_dataset` puts together become one set.
-/

namespace Regrid

/-- The values of a tensor at given places of one axis, and a stand-in where there is no place. -/
def Tensor.gather {α : Type} (t : Tensor α) (axis : Nat) (places : Array (Option Nat))
    (missing : α) : Tensor α :=
  let width := Tensor.extent (t.shape.drop (axis + 1))
  let row := fun i => t.values.extract (i * width) ((i + 1) * width)
  let block := fun b => places.flatMap fun
    | some i => row (b * t.shape.getD axis 0 + i)
    | none => Array.replicate width missing
  ⟨t.shape.set axis places.size, (Array.range (Tensor.extent (t.shape.take axis))).flatMap block⟩

/-- The type in which values can also be missing. Integers of up to 16 bits fit into the short
one. -/
def ElementType.withMissing : ElementType → ElementType
  | .float64 | .int64 | .int32 => .float64
  | .float32 | .int16 | .int8 => .float32

namespace LabelledField

/-- The labels of a dimension, if it has any. -/
def labels? (f : LabelledField) (dim : String) : Option (Array Float) :=
  (valueAt? dim f.coordinates).bind fun v => if v.dims = [dim] then some v.floats else none

/-- The field on other labels of a dimension, if the dimension has labels. -/
def relabel (f : LabelledField) (dim : String) (labels : Array Float) : LabelledField :=
  match f.labels? dim with
  | none => f
  | some old =>
    let places := labels.map fun x => old.findIdx? (· == x)
    let index : Variable := { dims := [dim], values := Tensor.ofArray (labels.map Number.real) }
    let spread := fun (v : Variable) =>
      if v.dims.contains dim then
        { v with values :=
            v.values.gather (v.dims.idxOf dim) places (.real Scalar.undefined) }
      else v
    { f with
      values := f.values.gather (f.dims.idxOf dim) places Scalar.undefined
      element := if places.all Option.isSome then f.element else f.element.withMissing
      coordinates := assignKey dim index (f.coordinates.map fun (k, v) => (k, spread v)) }

end LabelledField

namespace FieldSet

/-- The set with the same labels of a dimension in all fields. Different ones must not repeat. -/
def joinOn (s : FieldSet) (dim : String) : Except Error FieldSet :=
  match s.fields.filterMap fun (_, f) => f.labels? dim with
  | [] => .ok s
  | first :: others =>
    if others.all (· == first) then .ok s
    else if (first :: others).any fun labels => labels.toList.eraseDups.length != labels.size then
      .error .invalidValue
    else
      let labels := (((first :: others).flatMap Array.toList).eraseDups.mergeSort (· ≤ ·)).toArray
      .ok { s with fields := s.fields.map fun (k, f) => (k, f.relabel dim labels) }

/-- The set with the same labels in all fields, each of which has all coordinates on its
dimensions. -/
def join (s : FieldSet) : Except Error FieldSet := do
  let joined ← (s.fields.flatMap fun (_, f) => f.dims).eraseDups.foldlM joinOn s
  if joined.consistent then return joined.shareCoordinates else throw .invalidValue

end FieldSet

end Regrid

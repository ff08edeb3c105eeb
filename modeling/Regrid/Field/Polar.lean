import Regrid.Field.Element
import Regrid.Scalar
import Regrid.Tensor

/-!
# Means over the polar rows

All cells of a polar row touch the pole, so a field has one value there. `polarMeans` replaces the
first and the last row of every field by the mean of the values that are there.

Model of `mean_polar_rows`.
-/

namespace Regrid

variable {α : Type} [Scalar α]

/-- How the values of a field are added up and stored. -/
structure Rounding (α : Type) where
  /-- A sum as it is held while more values are added. -/
  accumulate : α → α
  store : α → α

/-- The rounding of an element type. -/
def ElementType.rounding (t : ElementType) : Rounding Float := ⟨t.accumulate, t.store⟩

/-- The mean of the values that are there. -/
def presentMean (r : Rounding α) (row : List α) : α :=
  let present := row.filter fun x => !Scalar.isNaN x
  if present.isEmpty then r.store Scalar.undefined
  else r.store (present.foldl (fun s x => r.accumulate (s + x)) 0 / Scalar.ofNat present.length)

/-- A field of `rows` rows and `columns` columns with means in its first and last row. -/
def polarRows (r : Rounding α) (rows columns : Nat) (field : List α) : List α :=
  (List.range rows).flatMap fun j =>
    let row := (field.drop (j * columns)).take columns
    if j = 0 ∨ j + 1 = rows then List.replicate columns (presentMean r row) else row

/-- A stack of fields, whose axes are the last two, with means in the polar rows
(`mean_polar_rows`). -/
def polarMeans (r : Rounding α) (t : Tensor α) : Except Error (Tensor α) :=
  match t.shape.reverse with
  | columns :: rows :: _ =>
    if rows = 0 then .error .badIndex
    else
      let size := rows * columns
      let count := if size = 0 then 0 else t.values.size / size
      .ok ⟨t.shape, ((List.range count).flatMap fun k =>
        polarRows r rows columns (t.values.extract (k * size) ((k + 1) * size)).toList).toArray⟩
  | _ => .error .badIndex

end Regrid

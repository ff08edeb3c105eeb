import Regrid.Error

/-!
# Arrays of any rank

A tensor is a shape and the values in row order. Only what the library needs is here: rank, extent,
slices along the first axis, a single value in place of a vector, and conversion of the values.
-/

namespace Regrid

/-- Values in row order together with the extents of their axes. -/
structure Tensor (α : Type) where
  shape : List Nat
  values : Array α
  deriving DecidableEq

namespace Tensor

variable {α β : Type}

/-- The number of values that a shape has room for. -/
def extent (shape : List Nat) : Nat := shape.foldl (· * ·) 1

/-- A vector. -/
def ofArray (xs : Array α) : Tensor α := ⟨[xs.size], xs⟩

/-- A single value. -/
def scalar (x : α) : Tensor α := ⟨[], #[x]⟩

/-- The number of axes. -/
def rank (t : Tensor α) : Nat := t.shape.length

/-- Apply a function to every value. -/
def map (f : α → β) (t : Tensor α) : Tensor β := ⟨t.shape, t.values.map f⟩

/-- Apply a function that can fail to every value, in row order. -/
def mapM (f : α → Except Error β) (t : Tensor α) : Except Error (Tensor β) := do
  return ⟨t.shape, ← t.values.mapM f⟩

/-- The values at one index of the first axis. -/
def slice (t : Tensor α) (i : Nat) : Array α :=
  let n := extent t.shape.tail
  t.values.extract (i * n) ((i + 1) * n)

/-- A tensor assembled from the values at each index of the first axis. -/
def ofSlices (rest : List Nat) (slices : Array (Array α)) : Tensor α :=
  ⟨slices.size :: rest, slices.flatten⟩

/-- The `n` elements of a vector, for all of which a single value can stand. -/
def spread (t : Tensor α) (n : Nat) : Except Error (Array α) :=
  if t.shape = [n] then .ok t.values
  else if t.shape = [] ∨ t.shape = [1] then .ok (t.values.flatMap (Array.replicate n))
  else .error .invalidValue

/-- Values that are stored together are of one kind: if one is real, all are. -/
def unify (t : Tensor Number) : Tensor Number :=
  if t.values.any Number.isReal then t.map fun x => .real x.toFloat else t

end Tensor

end Regrid

import Regrid.Tensor

/-!
# Packed numbering of used identifiers

A full index space numbers its entities `0, 1, …, full - 1`, and a problem uses some of them. A
packing numbers the used ones `0, 1, …, size - 1` by ascending identifier, so the same set of used
identifiers always gives the same numbering, in whatever order and how often they are named.

Model of `IndexSpace`. Its array versions `to_packed_array` and `to_full_array` look all identifiers
up at once, by bisection, and are definitions of their own.
-/

namespace Regrid

/-- A packed numbering (`IndexSpace`). -/
structure Packing where
  /-- The size of the full index space. -/
  full : Int
  /-- The used identifiers, strictly ascending: the packed index is the position. -/
  ids : Array Nat
  name : String

/-- Put a number into a strictly ascending list, once. -/
def insertDistinct (n : Nat) : List Nat → List Nat
  | [] => [n]
  | m :: ms =>
    if n < m then n :: m :: ms else if n = m then m :: ms else m :: insertDistinct n ms

/-- The distinct numbers of a list, ascending. -/
def ascending (ns : List Nat) : List Nat := ns.foldr insertDistinct []

namespace Packing

/-- The identifier that shows that a list does not fit into the full space: the smallest if it is
negative, else the largest if it is too large. -/
def misfit? (full : Int) (used : List Int) : Option Int :=
  match used.min?, used.max? with
  | some low, some high => if low < 0 then some low else if full ≤ high then some high else none
  | _, _ => none

/-- The packing of the used identifiers of a full space of the given size. -/
def ofUsed (full : Int) (used : List Int) (name : String) : Except Error Packing :=
  match misfit? full used with
  | some bad => .error (.outOfRange (.int bad) (.int full) ("full space of " ++ name))
  | none => .ok ⟨full, (ascending (used.map Int.toNat)).toArray, name⟩

/-- The number of used identifiers. -/
def size (p : Packing) : Nat := p.ids.size

/-- The packed index of an identifier. -/
def position? (p : Packing) (id : Int) : Option Nat :=
  if id < 0 then none else p.ids.idxOf? id.toNat

/-- Whether an identifier is used. A number with a fractional part is none. -/
def contains (p : Packing) (id : Number) : Bool :=
  match id.toRat? with
  | some q => q.den == 1 && (p.position? q.num).isSome
  | none => false

/-- The packed index of an identifier, which must be used (`IndexSpace.to_packed`). -/
def toPacked (p : Packing) (id : Number) : Except Error Nat := do
  match p.position? (← id.toInt) with
  | some i => return i
  | none => throw (.notFound (.number id) p.name)

/-- The identifier at a packed index (`IndexSpace.to_full`). -/
def toFull (p : Packing) (index : Number) : Except Error Nat :=
  if index.atLeast 0 && index.below p.size then
    match index with
    | .whole i => .ok (p.ids.getD i.toNat 0)
    | .real _ => .error .badIndex
  else .error (.outOfRange (.number index) (.int p.size) p.name)

/-- Where the first of the ascending identifiers stands, from `low` on and before `high`, that is
not below the given one. -/
def placeBetween (p : Packing) (id : Int) (low high : Nat) : Nat :=
  if low < high then
    let middle := low + (high - low) / 2
    if p.ids.getD middle 0 < id then p.placeBetween id (middle + 1) high
    else p.placeBetween id low middle
  else low
termination_by high - low
decreasing_by all_goals omega

/-- The place of an identifier among the used ones: as many of them are below it. -/
def place (p : Packing) (id : Int) : Nat := p.placeBetween id 0 p.size

/-- Whether an identifier stands at its place. The place behind all is tested at the last one. -/
def stands (p : Packing) (id : Int) : Bool :=
  p.ids.getD (min (p.place id) (p.size - 1)) 0 == id

/-- The packed indices of identifiers, all of which must be used; the first that is not is named
(`IndexSpace.to_packed_array`). -/
def toPackedAll (p : Packing) (ids : Tensor Int) : Except Error (Tensor Nat) :=
  match ids.values[0]? with
  | none => .ok (ids.map p.place)
  | some first =>
    if p.size = 0 then .error (.notFound (.int first) p.name)
    else
      match ids.values.find? fun id => !p.stands id with
      | some id => .error (.notFound (.int id) p.name)
      | none => .ok (ids.map p.place)

/-- The identifiers at packed indices; the first index that is none is named
(`IndexSpace.to_full_array`). -/
def toFullAll (p : Packing) (indices : Tensor Int) : Except Error (Tensor Nat) :=
  match indices.values.find? fun i : Int => i < 0 || p.size ≤ i with
  | some i => .error (.outOfRange (.int i) (.int p.size) p.name)
  | none => .ok (indices.map fun i => p.ids.getD i.toNat 0)

section Vectors

variable {α : Type} [Inhabited α]

/-- The values at the used identifiers, along the first axis of values for the full space
(`IndexSpace.pack`). -/
def pack (p : Packing) (v : Tensor α) : Except Error (Tensor α) :=
  match v.shape with
  | [] => .error .badIndex
  | n :: rest =>
    if (n : Int) = p.full then .ok (Tensor.ofSlices rest (p.ids.map v.slice))
    else .error (.dimensionMismatch ("Vector does not match full space of " ++ p.name)
      (.int p.full) (.int n))

/-- Values for the full space: packed ones at the used identifiers, `fill` elsewhere
(`IndexSpace.unpack`). -/
def unpack (p : Packing) (v : Tensor α) (fill : α) : Except Error (Tensor α) :=
  match v.shape with
  | [] => .error .badIndex
  | n :: rest =>
    if n ≠ p.size then
      .error (.dimensionMismatch ("Vector does not match packed space of " ++ p.name)
        (.int p.size) (.int n))
    else if p.full < 0 then .error .invalidValue
    else
      let blank := Array.replicate (Tensor.extent rest) fill
      let slices := p.ids.toList.zipIdx.foldl (fun acc (id, i) => acc.set! id (v.slice i))
        (Array.replicate p.full.toNat blank)
      .ok (Tensor.ofSlices rest slices)

end Vectors

/-- The text of a packing. -/
def text (p : Packing) : String :=
  "IndexSpace(name=" ++ Text.quoted p.name ++ ", nfull=" ++ toString p.full ++ ", size="
    ++ toString p.size ++ ")"

end Packing

end Regrid

import Regrid.Error

/-!
# Rosters of numbered entities

A roster holds the cells or the vertices of a mesh under their identifiers, in the order in which
they were added. It may hold a part of a larger numbering only: `full` is the size of the whole
one, which is either fixed or taken from the greatest identifier. An entity without an identifier
gets the next one.

Model of `GridMap`.
-/

namespace Regrid

/-- Entities that have an identifier. A negative identifier stands for none. -/
class Numbered (ε : Type) where
  index : ε → Int
  renumber : ε → Int → ε

/-- Entities under their identifiers (`GridMap`). -/
structure Roster (ε : Type) where
  /-- What the entities are, for messages. -/
  what : String
  /-- The entities in the order in which they were added. -/
  items : List ε := []
  /-- The fixed size of the whole numbering; a negative one stands for none. -/
  fixed : Int := -1
  /-- The greatest identifier given so far, or `-1`. -/
  top : Int := -1

namespace Roster

variable {ε : Type} [Numbered ε]

/-- The identifiers in the order in which they were added. -/
def keys (r : Roster ε) : List Int := r.items.map Numbered.index

/-- The number of entities. -/
def size (r : Roster ε) : Nat := r.items.length

/-- The entity of an identifier. -/
def get? (r : Roster ε) (index : Int) : Option ε :=
  r.items.find? fun x => Numbered.index x == index

/-- Whether an identifier is in use. -/
def contains (r : Roster ε) (index : Int) : Bool := (r.get? index).isSome

/-- The entity of an identifier, which must be in use (`GridMap.at`). -/
def get (r : Roster ε) (index : Int) : Except Error ε :=
  match r.get? index with
  | some x => .ok x
  | none => .error (.notFound (.int index) (r.what ++ " map"))

/-- An entity with the identifier under which the roster would take it. -/
def numbered (r : Roster ε) (x : ε) : ε :=
  if Numbered.index x < 0 then Numbered.renumber x (r.top + 1) else x

/-- Add an entity whose identifier is not in use, and tell it as it was added (`GridMap.add`). -/
def add (r : Roster ε) (x : ε) : Except Error (Roster ε × ε) :=
  let x := r.numbered x
  if r.contains (Numbered.index x) then
    .error (.duplicateIdentifier (.int (Numbered.index x)) r.what)
  else .ok ({ r with items := r.items ++ [x], top := max r.top (Numbered.index x) }, x)

/-- Remove the entity of an identifier, and tell it (`GridMap.erase`). -/
def erase (r : Roster ε) (index : Int) : Except Error (Roster ε × ε) := do
  let x ← r.get index
  return ({ r with items := r.items.filter fun y => Numbered.index y != index }, x)

/-- Remove all entities (`GridMap.clear`). The next identifier is zero again; a fixed size stays. -/
def clear (r : Roster ε) : Roster ε := { r with items := [], top := -1 }

/-- The size of the whole numbering (`GridMap.nfull`). -/
def full (r : Roster ε) : Int := if 0 ≤ r.fixed then r.fixed else r.top + 1

/-- Fix the size of the whole numbering; a negative size lifts that again (`GridMap.set_nfull`). -/
def setFull (r : Roster ε) (n : Int) : Roster ε := { r with fixed := n }

/-- Fix the size of the whole numbering as it is. -/
def freeze (r : Roster ε) : Roster ε := r.setFull r.full

/-- The entities by ascending identifier (`GridMap.sorted`). -/
def sorted (r : Roster ε) : List ε :=
  r.items.mergeSort fun x y => Numbered.index x ≤ Numbered.index y

/-- Take the greatest identifier from the entities that are there
(`GridMap._recompute_max_index`). -/
def recount (r : Roster ε) : Roster ε :=
  { r with top := r.items.foldl (fun n x => max n (Numbered.index x)) (-1) }

/-- The number of entities and the size of the whole numbering. -/
def text (r : Roster ε) : String := toString r.size ++ "/" ++ toString r.full

end Roster

end Regrid

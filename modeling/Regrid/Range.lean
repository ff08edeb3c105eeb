/-!
# Parts of a sequence

A part of a sequence is named by the place where it begins and the place behind its end. A
negative place counts from the end of the sequence, and places outside of it are moved to its
ends; so every pair of integers names a part, perhaps an empty one.
-/

namespace Regrid

/-- A place in a sequence of length `n`. -/
def boundedPlace (n : Nat) (i : Int) : Nat :=
  min n (if i < 0 then i + n else i).toNat

/-- The part of a list from a place up to another one. -/
def partOf {β : Type} (xs : List β) (start stop : Int) : List β :=
  let low := boundedPlace xs.length start
  (xs.drop low).take (boundedPlace xs.length stop - low)

end Regrid

/-!
# Values under keys, in the order of first use

An association list in which every key occurs once. A new key goes to the end and an old one keeps
its place, so listing the keys shows the order in which they were first used.
-/

namespace Regrid

variable {κ β : Type} [DecidableEq κ]

/-- Put a value under a key: in the place of an earlier value, or at the end. -/
def assignKey (key : κ) (value : β) : List (κ × β) → List (κ × β)
  | [] => [(key, value)]
  | (k, v) :: rest => if k = key then (k, value) :: rest else (k, v) :: assignKey key value rest

/-- Each key once, in the order of first use, with the value given last. -/
def lastValues (pairs : List (κ × β)) : List (κ × β) :=
  pairs.foldl (fun acc (k, v) => assignKey k v acc) []

/-- The value under a key. -/
def valueAt? (key : κ) (pairs : List (κ × β)) : Option β :=
  (pairs.find? fun (k, _) => k = key).map Prod.snd

/-- Remove a key. -/
def eraseKey (key : κ) (pairs : List (κ × β)) : List (κ × β) :=
  pairs.filter fun (k, _) => k ≠ key

/-- Put many values under their keys, one after the other. -/
def assignKeys (new pairs : List (κ × β)) : List (κ × β) :=
  new.foldl (fun acc (k, v) => assignKey k v acc) pairs

end Regrid

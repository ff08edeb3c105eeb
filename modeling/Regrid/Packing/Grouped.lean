import Regrid.Packing.Basic
import Regrid.Keyed

/-!
# Packed numbering over several groups

A domain made of several groups, each with its own local identifiers, is packed group by group in
the order of the groups, and by ascending local identifier inside a group. The packed indices of a
group are therefore consecutive, starting at its `offset?`.

Model of `IndexSpace2`.
-/

namespace Regrid

/-- The name of a group: a text or an integer. -/
inductive GroupId where
  | text (s : String)
  | number (n : Int)
  deriving DecidableEq, Repr

/-- A group name as a value to show. -/
def GroupId.datum : GroupId → Datum
  | text s => .text s
  | number n => .int n

/-- One group of a grouped packing. -/
structure PackedGroup where
  id : GroupId
  /-- The size of the local index space. -/
  full : Int
  /-- The used local identifiers, strictly ascending. -/
  locals : List Nat

/-- A packed numbering of pairs of a group and a local identifier (`IndexSpace2`). -/
structure GroupPacking where
  name : String
  groups : List PackedGroup

namespace GroupPacking

/-- The pair of a group and a local identifier, if the group exists and has the identifier. -/
def checkLocal (sizes : List (GroupId × Int)) (name : String) (group : GroupId) (id : Number) :
    Except Error (GroupId × Nat) := do
  match sizes.find? fun (g, _) => g == group with
  | none => throw (.notFound group.datum ("groups of " ++ name))
  | some (_, n) =>
    let i ← id.toInt
    if 0 ≤ i ∧ i < n then return (group, i.toNat)
    else throw (.outOfRange (.int i) (.int n) ("group " ++ group.datum.quoted ++ " of " ++ name))

/-- The packing of the used pairs. -/
def ofUsed (sizes : List (GroupId × Int)) (used : List (GroupId × Number)) (name : String) :
    Except Error GroupPacking := do
  let sizes := lastValues sizes
  let pairs ← used.mapM fun (g, l) => checkLocal sizes name g l
  return ⟨name, sizes.map fun (g, n) =>
    ⟨g, n, ascending (pairs.filterMap fun (h, l) => if h = g then some l else none)⟩⟩

/-- A group of the packing. -/
def group? (p : GroupPacking) (g : GroupId) : Option PackedGroup :=
  p.groups.find? fun x => x.id == g

/-- The used pairs in packed order. -/
def pairs (p : GroupPacking) : List (GroupId × Nat) :=
  p.groups.flatMap fun x => x.locals.map fun l => (x.id, l)

/-- The number of used pairs. -/
def size (p : GroupPacking) : Nat := p.pairs.length

/-- The packed index of the first pair of a group. -/
def offset? (p : GroupPacking) (g : GroupId) : Option Nat :=
  if (p.group? g).isSome then
    some ((p.groups.takeWhile fun x => x.id != g).flatMap PackedGroup.locals).length
  else none

/-- The group of a name, which must be one of the packing. -/
def group (p : GroupPacking) (g : GroupId) : Except Error PackedGroup :=
  match p.group? g with
  | some x => .ok x
  | none => .error (.notFound g.datum ("groups of " ++ p.name))

/-- The number of used pairs of a group (`IndexSpace2.group_size`). -/
def groupSize (p : GroupPacking) (g : GroupId) : Except Error Nat :=
  return (← p.group g).locals.length

/-- The packing of the local identifiers of one group (`IndexSpace2.group_space`). -/
def groupPacking (p : GroupPacking) (g : GroupId) : Except Error Packing := do
  let x ← p.group g
  Packing.ofUsed x.full (x.locals.map Int.ofNat) (p.name ++ "[" ++ g.datum.plain ++ "]")

/-- The packed indices of a group, as the first one and the one behind the last
(`IndexSpace2.packed_slice`). -/
def range (p : GroupPacking) (g : GroupId) : Except Error (Nat × Nat) :=
  match p.group? g, p.offset? g with
  | some x, some start => .ok (start, start + x.locals.length)
  | _, _ => .error .missingKey

/-- Whether a pair is used. -/
def contains (p : GroupPacking) (g : GroupId) (id : Number) : Bool :=
  match id.toRat? with
  | some q => q.den == 1 && 0 ≤ q.num && p.pairs.contains (g, q.num.toNat)
  | none => false

/-- The packed index of a pair, which must be used (`IndexSpace2.to_packed`). -/
def toPacked (p : GroupPacking) (g : GroupId) (id : Number) : Except Error Nat := do
  let i ← id.toInt
  match if 0 ≤ i then p.pairs.idxOf? (g, i.toNat) else none with
  | some n => return n
  | none => throw (.notFound (.tuple [g.datum, .number id]) p.name)

/-- The pair at a packed index (`IndexSpace2.to_full`). -/
def toFull (p : GroupPacking) (index : Number) : Except Error (GroupId × Nat) :=
  let refuse := .error (.outOfRange (.number index) (.int p.size) p.name)
  if index.atLeast 0 && index.below p.size then
    match index with
    | .whole i => (p.pairs[i.toNat]?).elim refuse .ok
    | .real _ => .error .badType
  else refuse

section Vectors

variable {α : Type} [Inhabited α]

/-- The values of the used identifiers of one group, taken from a vector for its local space. -/
def packGroup (x : PackedGroup) (vectors : List (GroupId × Tensor α)) :
    Except Error (List α) :=
  if x.locals.isEmpty then .ok []
  else
    match vectors.find? fun (g, _) => g == x.id with
    | none => .error .missingKey
    | some (_, v) =>
      match v.shape with
      | [] => .error .badIndex
      | n :: rest =>
        if (n : Int) ≠ x.full then
          .error (.dimensionMismatch
            ("Vector of group " ++ x.id.datum.quoted ++ " does not match its local space")
            (.int x.full) (.int n))
        else
          let picked := x.locals.flatMap fun l => (v.slice l).toList
          if rest.isEmpty || (x.locals.length == 1 && picked.length == 1) then .ok picked
          else .error .invalidValue

/-- The values of all used pairs in packed order (`IndexSpace2.pack`). -/
def pack (p : GroupPacking) (vectors : List (GroupId × Tensor α)) : Except Error (Array α) := do
  let vectors := lastValues vectors
  return (← p.groups.mapM fun x => packGroup x vectors).flatten.toArray

/-- One vector per group: packed values at the used identifiers, `fill` elsewhere
(`IndexSpace2.unpack`). -/
def unpack (p : GroupPacking) (v : Tensor α) (fill : α) :
    Except Error (List (GroupId × Array α)) :=
  if v.shape ≠ [p.size] then
    .error (.dimensionMismatch ("Vector does not match packed space of " ++ p.name)
      (.shape [p.size]) (.shape v.shape))
  else
    p.groups.mapM fun x =>
      if x.full < 0 then .error .invalidValue
      else
        let start := (p.offset? x.id).getD 0
        .ok (x.id, x.locals.zipIdx.foldl
          (fun acc (l, i) => acc.set! l (v.values.getD (start + i) fill))
          (Array.replicate x.full.toNat fill))

end Vectors

/-- The text of a grouped packing. -/
def text (p : GroupPacking) : String :=
  "IndexSpace2(name=" ++ Text.quoted p.name ++ ", groups=" ++ toString p.groups.length
    ++ ", size=" ++ toString p.size ++ ")"

end GroupPacking

end Regrid

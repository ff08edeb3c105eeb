import Regrid.Mesh.Basic

/-!
# Conditions on cells

A condition compares a number of a cell, such as its identifier or its area, with given ones.
Conditions are tests for `Mesh.filterCells`. A remainder by zero is a test that fails.
-/

namespace Regrid

/-- A number of a cell. -/
inductive CellNumber where
  | index
  | i
  | j
  | k
  | nativeArea
  /-- How many vertices it has. -/
  | corners

namespace CellNumber

/-- The number of that name. -/
def ofName? : String → Option CellNumber
  | "index" => some index
  | "i" => some i
  | "j" => some j
  | "k" => some k
  | "native_area" => some nativeArea
  | "len" => some corners
  | _ => none

/-- The number in a cell. -/
def of (c : Cell Float) : CellNumber → Number
  | index => .whole c.index
  | i => .whole c.i
  | j => .whole c.j
  | k => .whole c.k
  | nativeArea => .real c.nativeArea
  | corners => .whole c.refs.length

end CellNumber

/-- A relation between numbers: the orderings in which it holds, and whether it holds of numbers
that do not compare. -/
structure Comparison where
  orderings : List Ordering
  incomparable : Bool := false

namespace Comparison

/-- The relation of that name. -/
def ofName? : String → Option Comparison
  | "eq" => some ⟨[.eq], false⟩
  | "ne" => some ⟨[.lt, .gt], true⟩
  | "lt" => some ⟨[.lt], false⟩
  | "le" => some ⟨[.lt, .eq], false⟩
  | "gt" => some ⟨[.gt], false⟩
  | "ge" => some ⟨[.gt, .eq], false⟩
  | _ => none

/-- Whether the relation holds. -/
def holds (r : Comparison) (x y : Number) : Bool :=
  (x.compare? y).elim r.incomparable r.orderings.contains

end Comparison

/-- A condition on a cell. -/
inductive CellCondition where
  | constant (keep : Bool)
  | compare (number : CellNumber) (relation : Comparison) (value : Number)
  | oneOf (number : CellNumber) (values : List Number)
  /-- The number leaves a remainder, which has the sign of the modulus. -/
  | residue (number : CellNumber) (modulus remainder : Number)

/-- Whether a cell meets a condition. -/
def CellCondition.test (c : Cell Float) : CellCondition → Except Error Bool
  | constant keep => .ok keep
  | compare number relation value => .ok (relation.holds (number.of c) value)
  | oneOf number values => .ok (values.any fun v => (number.of c).compare? v == some .eq)
  | residue number modulus remainder =>
    match modulus.toRat?, (number.of c).toRat? with
    | some 0, _ => .error .divisionByZero
    | some m, some x => .ok (remainder.toRat? == some (x - m * ((x / m).floor : Int)))
    | _, _ => .ok false

end Regrid

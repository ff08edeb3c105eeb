import Regrid.Keyed
import Regrid.Tensor
import Regrid.Text.Numeral

/-!
# Datasets

A dataset holds named variables on named dimensions, each with attributes, and attributes of its
own. Variables that say where the others lie are its coordinates. Keys stand in the order of first
use.

Model of the datasets that are read and written, and of `update_history`.
-/

namespace Regrid

/-- Named settings of a variable or a dataset. -/
abbrev Attributes := List (String × Datum)

namespace Datum

/-- The integer of a setting: numbers are truncated and whole numerals are read. -/
def toInt : Datum → Except Error Int
  | number x | stored x => x.toInt
  | flag b => .ok (if b then 1 else 0)
  | text s => (Text.integer? s).elim (.error .invalidValue) .ok
  | _ => .error .badType

/-- The real number of a setting. -/
def toFloat : Datum → Except Error Float
  | number x | stored x => .ok x.toFloat
  | flag b => .ok (if b then 1 else 0)
  | text s => (Text.real? s).elim (.error .invalidValue) .ok
  | _ => .error .badType

/-- Whether a setting is on: zero, the empty text and an absent value are off. -/
def isTrue : Datum → Bool
  | absent => false
  | flag b => b
  | number x | stored x => x.isTrue
  | text s => s != ""
  | tuple xs => !xs.isEmpty
  | list xs => !xs.isEmpty
  | record fs => !fs.isEmpty

end Datum

namespace Attributes

/-- A setting. -/
def get? (as : Attributes) (name : String) : Option Datum := valueAt? name as

/-- A setting that must be there. -/
def get (as : Attributes) (name : String) : Except Error Datum :=
  (as.get? name).elim (.error .missingKey) .ok

/-- The text of a setting, if it is a text. -/
def text? (as : Attributes) (name : String) : Option String :=
  match as.get? name with
  | some (.text s) => some s
  | _ => none

/-- The line of an event in a history, under the given time stamp. -/
def entry (stamp event : String) : String := stamp ++ ": " ++ event

/-- Attributes with nothing but a history of one event. -/
def ofEvent (stamp event : String) : Attributes := [("history", .text (entry stamp event))]

/-- Write an event at the head of the history, which must be a text if there is one
(`update_history`). -/
def record (as : Attributes) (stamp event : String) : Except Error Attributes :=
  match as.get? "history" with
  | none => .ok (assignKey "history" (.text (entry stamp event)) as)
  | some (.text s) => .ok (assignKey "history" (.text (entry stamp event ++ "\n" ++ s)) as)
  | some _ => .error .badType

end Attributes

/-- Values on named dimensions. -/
structure Variable where
  dims : List String
  values : Tensor Number
  attributes : Attributes := []

/-- Named variables. -/
structure Dataset where
  attributes : Attributes := []
  coordinates : List (String × Variable) := []
  data : List (String × Variable) := []

namespace Variable

/-- A variable without dimensions. -/
def single (x : Number) (attributes : Attributes) : Variable :=
  ⟨[], Tensor.scalar x, attributes⟩

/-- A vector of integers. -/
def integers (dim : String) (ns : List Int) : Variable :=
  { dims := [dim], values := Tensor.ofArray (ns.map Number.whole).toArray }

/-- Real values in row order. -/
def reals (dims : List String) (shape : List Nat) (xs : Array Float)
    (attributes : Attributes := []) : Variable :=
  ⟨dims, ⟨shape, xs.map Number.real⟩, attributes⟩

/-- The values as real numbers. -/
def floats (v : Variable) : Array Float := v.values.values.map Number.toFloat

end Variable

namespace Dataset

/-- All variables, coordinates first. -/
def all (ds : Dataset) : List (String × Variable) := ds.coordinates ++ ds.data

/-- A variable of any kind. -/
def get? (ds : Dataset) (name : String) : Option Variable := valueAt? name ds.all

/-- The extents of the dimensions, in the order of first use. -/
def sizes (ds : Dataset) : List (String × Nat) :=
  lastValues (ds.all.flatMap fun (_, v) => v.dims.zip v.values.shape)

/-- Whether the variables have a dimension per axis and agree on the extents. -/
def consistent (ds : Dataset) : Bool :=
  let sizes := ds.sizes
  ds.all.all fun (_, v) =>
    v.dims.length == v.values.shape.length
      && (v.dims.zip v.values.shape).all fun (d, n) => valueAt? d sizes == some n

/-- The dataset of given variables, which must be consistent. A variable on the one dimension of
its own name is a coordinate. -/
def ofVariables (attributes : Attributes) (coordinates data : List (String × Variable)) :
    Except Error Dataset :=
  let isIndex := fun (p : String × Variable) => p.2.dims == [p.1]
  let ds : Dataset := {
    attributes
    coordinates := coordinates ++ data.filter isIndex
    data := data.filter (!isIndex ·) }
  if ds.consistent then .ok ds else .error .invalidValue

/-- The coordinates that lie on the given dimensions. -/
def coordinatesOn (ds : Dataset) (dims : List String) : List (String × Variable) :=
  ds.coordinates.filter fun (_, v) => v.dims.all dims.contains

/-- One variable as a dataset of its own: its attributes become those of the dataset, and the
coordinates on its dimensions stay. A dimension without a variable counts as one without
attributes. -/
def select (ds : Dataset) (name : String) : Except Error Dataset :=
  match ds.get? name with
  | some v => .ok { attributes := v.attributes, coordinates := ds.coordinatesOn v.dims }
  | none =>
    if (valueAt? name ds.sizes).isSome then .ok { coordinates := ds.coordinatesOn [name] }
    else .error .missingKey

end Dataset

end Regrid

import Regrid.LatLon.Coordinates
import Regrid.Regridder.Basic
import Regrid.Sparse.Stored

/-!
# Stored weights

Weights are stored with the numbers of the two grids and the options they were made for. Weights
that are read back are accepted only for a request with the same grids, within the closeness of
`LatLon.close`, and the same options.

`Regridder.provenance` is what a regridder says about its own weights, and `Provenance.ofAttributes`
what can be read of it from a store; `Regridder.ofStored` decides by it, whatever it says.

Model of `Regridder.weights_to_xarray`, `_load_weights` and `_validate_weights`, and of what the
constructor of `Regridder` does with `reuse_weights`.
-/

namespace Regrid

/-- The part that a grid plays in a remap. -/
inductive GridRole where
  | source
  | target
  deriving DecidableEq, Repr

namespace GridRole

/-- The mark of the settings of a grid. -/
def mark : GridRole → String
  | source => "src"
  | target => "dst"

/-- The word for the role at the head of a sentence. -/
def label : GridRole → String
  | source => "Source"
  | target => "Target"

/-- The grid of a role. -/
def of {α : Type} (p : GridPair α) : GridRole → LatLon α
  | source => p.source
  | target => p.target

/-- The name of a setting of a grid. -/
def setting (role : GridRole) (name : String) : String := role.mark ++ "_" ++ name

end GridRole

/-- The numbers that identify a grid. -/
inductive GridNumber where
  | columns
  | rows
  | offset
  | spacing
  deriving DecidableEq, Repr

namespace GridNumber

/-- The numbers in the order in which they are listed. -/
def all : List GridNumber := [columns, rows, offset, spacing]

/-- The name of a number among the attributes of a grid. -/
def name : GridNumber → String
  | columns => "im"
  | rows => "jm"
  | offset => "offi"
  | spacing => "dlat"

/-- A number of a grid. -/
def of {α : Type} [Scalar α] (g : LatLon α) : GridNumber → α
  | columns => Scalar.ofNat g.columns
  | rows => Scalar.ofNat g.rows
  | offset => g.offset
  | spacing => g.spacing

end GridNumber

/-- What stored weights say about the request they were made for. A number may turn out to be none
when it is asked for. -/
structure Provenance (α : Type) where
  number : GridRole → GridNumber → Except Error α
  skipMissing : Option Bool
  /-- The threshold as it is shown and as a number. -/
  threshold : Option (Datum × Except Error α)
  polarMean : Option Bool

namespace Provenance

variable {α : Type} [Trigonometry α]

/-- Refuses weights of another grid than the one of a request. -/
def checkGrid (p : Provenance α) (role : GridRole) (g : LatLon α) : Except Error Unit := do
  let stored ← GridNumber.all.mapM fun k => return (k, ← p.number role k)
  let requested := GridNumber.all.map fun k => (k, k.of g)
  let shown := fun (xs : List (GridNumber × α)) =>
    Datum.record (xs.map fun (k, x) => (k.name, .real (Scalar.toFloat x)))
  unless (stored.zip requested).all fun (a, b) => LatLon.close a.2 b.2 do
    throw (.dimensionMismatch (role.label ++ " grid does not match loaded weights")
      (shown requested) (shown stored))

/-- Refuses weights made with other options than those of a request. An option of which nothing is
stored agrees with every request. -/
def checkOptions (p : Provenance α) (o : RegridOptions α) : Except Error Unit := do
  let skip := p.skipMissing.getD o.skipMissing
  if skip != o.skipMissing then throw (.refused (.skipMissing o.skipMissing skip))
  if let some (shown, x) := p.threshold then
    if Scalar.ratio 1 1000000 < Scalar.abs ((← x) - o.threshold) then
      throw (.refused (.missingThreshold (Scalar.toFloat o.threshold) shown))
  let polar := p.polarMean.getD o.polarMean
  if polar != o.polarMean then throw (.refused (.polarMean o.polarMean polar))

/-- What the attributes of a store say. A number of a grid that is not there is undefined. -/
def ofAttributes (as : Attributes) : Provenance Float where
  number role k := (as.get? (role.setting k.name)).elim (.ok Scalar.undefined) Datum.toFloat
  skipMissing := (as.get? "skipna").map Datum.isTrue
  threshold := (as.get? "na_thres").map fun d => (d, d.toFloat)
  polarMean := (as.get? "mean_polar").map Datum.isTrue

end Provenance

namespace Regridder

section Provenance

variable {α : Type} [Trigonometry α]

/-- What a regridder says about its own weights. -/
def provenance (r : Regridder α) : Provenance α where
  number role k := .ok (k.of (role.of r.grids))
  skipMissing := some r.options.skipMissing
  threshold := some (.real (Scalar.toFloat r.options.threshold), .ok r.options.threshold)
  polarMean := some r.options.polarMean

/-- The regridder with stored weights, for a request that they fit
(`Regridder._validate_weights`). -/
def ofStored (grids : GridPair α) (options : RegridOptions α) (m : SparseMatrix α)
    (p : Provenance α) : Except Error (Regridder α) := do
  p.checkGrid .source grids.source
  p.checkGrid .target grids.target
  unless m.rows = grids.target.size ∧ m.cols = grids.source.size do
    throw (.dimensionMismatch "Loaded weight matrix has wrong shape"
      (.shape [grids.target.size, grids.source.size]) m.shape)
  p.checkOptions options
  return ofMatrix grids options m

end Provenance

/-- A switch as it is stored. -/
def storedFlag (b : Bool) : Datum := .int (if b then 1 else 0)

/-- The numbers of a grid as settings of stored weights. -/
def gridSettings (role : GridRole) (g : LatLon Float) : Attributes :=
  g.attributes.map fun (k, v) => (role.setting k, v)

/-- The settings that are stored with weights (`Regridder._weights_attrs`). -/
def settings (r : Regridder Float) : Attributes :=
  [("shape_src", .list (r.grids.source.shape.map fun n : Nat => .int n)),
    ("shape_dst", .list (r.grids.target.shape.map fun n : Nat => .int n)),
    ("skipna", storedFlag r.options.skipMissing), ("na_thres", .real r.options.threshold),
    ("mean_polar", storedFlag r.options.polarMean)]
    ++ gridSettings .source r.grids.source ++ gridSettings .target r.grids.target

/-- The weights and their settings as a dataset (`Regridder.weights_to_xarray`). -/
def toDataset (r : Regridder Float) : Dataset :=
  let ds := r.weights.toDataset
  { ds with attributes := assignKeys r.settings ds.attributes }

/-- The regridder with the weights of a dataset, for a request that they fit
(`Regridder._load_weights`). -/
def ofDataset (grids : GridPair Float) (options : RegridOptions Float) (ds : Dataset) :
    Except Error (Regridder Float) := do
  ofStored grids options (← SparseMatrix.ofDataset ds) (.ofAttributes ds.attributes)

/-- The regridder for a request, from stored weights if there are some, and the weights to be stored
afterwards. -/
def reuse (grids : GridPair Float) (options : RegridOptions Float) (blocks : Option Int)
    (stored : Option Dataset) : Except Error (Regridder Float × Dataset) := do
  match stored with
  | some ds => return (← ofDataset grids options ds, ds)
  | none =>
    let r ← generate grids options blocks
    return (r, r.toDataset)

end Regridder

end Regrid

import Regrid.Datum

/-!
# Errors

Every way in which an operation can refuse its input, as a cause with the values it is about.
`Error.message?` gives the sentence of a cause; a few causes have none, because they only say that a
value is of no use where it stands.

The causes are the errors `DuplicateIdentifierError`, `NotFoundError`, `OutOfRangeError`,
`DimensionMismatchError`, `UnsupportedVersionError`, `MalformedGridError`, `OptimizationFailedError`
and `NaNInInputError`, and the errors of built-in kinds beside them.
-/

namespace Regrid

/-- Why the parameters of a structured grid, or the coordinates it is to be read from, describe no
grid. -/
inductive GridFault where
  | notIntegral (columns rows : Number)
  | notPositive (columns rows : Int)
  | spacing (minutes : Float)
  | offset (columns : Float)
  | radius (metres : Float)
  /-- Rows of this many minutes do not fit between the poles. -/
  | overrun (rows : Nat) (minutes : Float)
  | noCoordinates
  | notOneDimensional
  | longitudes (spacing : Float)
  | latitudesNotAscending
  | latitudesIrregular
  | edgesNotIncreasing
  /-- A fault in the words of the caller. -/
  | described (words : List Datum)

/-- Why a solution of a projection problem is not acceptable. -/
inductive SolverFault where
  | systemNotFinite
  | solutionShape (shape : List Nat) (expected : Nat)
  | solutionNotFinite
  /-- The constraints are missed by more than the tolerance. -/
  | constraintsMissed
  | described (words : List Datum)

/-- A value that is understood but not allowed. -/
inductive Refusal where
  | noProjection (grid : String)
  | severalGrids (names : List String)
  | unknownFormat (format : String)
  | noSpatialDimensions (array : Datum)
  | skipMissing (requested stored : Bool)
  | missingThreshold (requested : Float) (stored : Datum)
  | polarMean (requested stored : Bool)

/-- What an operation can fail with. -/
inductive Error where
  | duplicateIdentifier (index : Datum) (what : String)
  | notFound (key : Datum) (place : String)
  | outOfRange (index size : Datum) (place : String)
  /-- A shape or an extent is not the expected one. -/
  | dimensionMismatch (subject : String) (expected actual : Datum)
  | unsupportedVersion (found supported : Datum)
  | malformedGrid (fault : GridFault)
  | optimizationFailed (fault : SolverFault)
  | nonFinite (name : String) (indices : List Datum)
  | refused (refusal : Refusal)
  /-- The value to be regridded is neither an array nor a dataset. -/
  | unsupportedInput
  /-- A value cannot be used as what it is given for. -/
  | invalidValue
  /-- An integer does not fit. -/
  | tooLarge
  | divisionByZero
  | missingKey
  | badIndex
  | badType
  | badProjection

namespace GridFault

/-- The sentence of a fault. -/
def message : GridFault → String
  | notIntegral columns rows =>
    "im, jm must be integers, got (" ++ columns.text ++ ", " ++ rows.text ++ ")"
  | notPositive columns rows =>
    "im, jm must be positive, got (" ++ toString columns ++ ", " ++ toString rows ++ ")"
  | spacing x => "dlat must be positive, got " ++ Decimal.shortest x
  | offset x => "offi must be finite, got " ++ Decimal.shortest x
  | radius x => "radius must be positive, got " ++ Decimal.shortest x
  | overrun rows x =>
    "Latitude edges not monotonic: " ++ toString rows ++ " rows of " ++ Decimal.shortest x
      ++ " minutes overrun the poles"
  | noCoordinates => "Could not find latitude/longitude coordinates"
  | notOneDimensional => "Latitude and longitude must be 1-D"
  | longitudes x => "Longitudes are not a global grid with spacing " ++ Decimal.shortest x
  | latitudesNotAscending => "Latitudes must be strictly ascending"
  | latitudesIrregular => "Latitudes are not regularly spaced"
  | edgesNotIncreasing => "Grid edges must be strictly increasing"
  | described words => wording words
where
  /-- One word stands for itself, several are listed. -/
  wording : List Datum → String
    | [] => ""
    | [d] => d.plain
    | ds => (Datum.tuple ds).quoted

end GridFault

/-- The sentence of a fault, if it has one. -/
def SolverFault.message? : SolverFault → Option String
  | systemNotFinite => some "KKT solve produced non-finite values"
  | solutionShape shape expected =>
    some ("Solver returned shape " ++ (Datum.shape shape).quoted ++ ", expected ("
      ++ toString expected ++ ",)")
  | solutionNotFinite => some "Solver returned non-finite values"
  | constraintsMissed => none
  | described words => some (GridFault.message.wording words)

/-- The sentence of a refusal. -/
def Refusal.message : Refusal → String
  | noProjection grid => "Grid " ++ Text.quoted grid ++ " has no projection (sproj)"
  | severalGrids names =>
    "Dataset holds several grids " ++ (Datum.list (names.map .text)).quoted ++ "; pass vname"
  | unknownFormat format =>
    "Unknown format: '" ++ format ++ "'. Must be 'dict' or 'dataset'."
  | noSpatialDimensions array =>
    "Could not identify latitude/longitude dimensions of " ++ array.quoted
  | skipMissing requested stored => option "skipna" (.flag requested) (.flag stored)
  | missingThreshold requested stored => option "na_thres" (.real requested) stored
  | polarMean requested stored => option "mean_polar" (.flag requested) (.flag stored)
where
  /-- An option that differs between a request and stored weights. -/
  option (name : String) (requested stored : Datum) : String :=
    "Requested " ++ name ++ "=" ++ requested.plain ++ " does not match loaded weights " ++ name
      ++ "=" ++ stored.plain

namespace Error

/-- A place named at the end of a sentence, if it has a name. -/
def inPlace (place : String) : String :=
  if place = "" then "" else " in " ++ place

/-- At most ten indices are listed, with their number if there are more. -/
def indexList (indices : List Datum) : String :=
  let shown := ", ".intercalate ((indices.take 10).map Datum.plain)
  if indices.length ≤ 10 then shown
  else shown ++ ", ... (" ++ toString indices.length ++ " total)"

/-- The sentence of an error, if it has one. -/
def message? : Error → Option String
  | duplicateIdentifier index what =>
    some ("Error adding repeat " ++ what ++ " index=" ++ index.plain
      ++ ". Cells and Vertices must have unique indices.")
  | notFound key place => some ("Identifier " ++ key.quoted ++ " not found" ++ inPlace place)
  | outOfRange index size place =>
    some ("Index " ++ index.plain ++ " out of range [0, " ++ size.plain ++ ")" ++ inPlace place)
  | dimensionMismatch subject .absent .absent => some subject
  | dimensionMismatch subject expected actual =>
    some (subject ++ " (expected " ++ expected.plain ++ ", got " ++ actual.plain ++ ")")
  | unsupportedVersion found supported =>
    some ("Trying to read version " ++ found.plain ++ ", only version " ++ supported.plain
      ++ " grids can be read")
  | malformedGrid fault => some fault.message
  | optimizationFailed fault => fault.message?
  | nonFinite name indices =>
    some ("Non-finite values in " ++ name ++ " at index " ++ indexList indices)
  | refused refusal => some refusal.message
  | unsupportedInput => some "Input must be an xarray.DataArray or xarray.Dataset."
  | invalidValue | tooLarge | divisionByZero | missingKey | badIndex | badType | badProjection =>
    none

/-- The error of a number that names no integer. -/
def ofNotInteger : Number.NotInteger → Error
  | .undefined => invalidValue
  | .tooLarge => tooLarge

end Error

/-- The integer next to a number on the side of zero, of any size. -/
def Number.toInt (x : Number) : Except Error Int :=
  x.truncate.mapError Error.ofNotInteger

/-- The truncated number as a stored identifier. -/
def Number.toIdentifier (x : Number) : Except Error Int :=
  x.identifier.mapError Error.ofNotInteger

end Regrid

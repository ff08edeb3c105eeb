import Regrid.Finite
import Regrid.Fitting.Program
import Regrid.Fitting.Sheet
import Regrid.Sparse.Starved

/-!
# Fitting basis functions to fine fields

Which combination `x` of basis functions comes closest to the fields of all sheets, if the value
of every coarse cell is to be the average of the fine fields over it? `FittingProblem.assemble`
writes this as a quadratic program in packed numbers. Its objective is `|X x - f₂|²` with the
interpolation `X` at all fine cells, and its constraints are `A x = S f₂` with the overlaps `S`
divided by the areas of the coarse cells. Only the coarse cells, fine cells and basis functions
that an operator touches take part.

Model of `build_projection_problem` and `solve_projection`; a `Solver` is a `QPSolver`.
-/

namespace Regrid

/-- A quadratic program with the packings of the coarse cells, its constraints, of the fine cells,
and of the basis functions, its variables (`ProjectionProblem`). -/
structure FittingProblem (α : Type) extends QuadraticProgram α where
  coarse : Packing
  fine : GroupPacking
  basis : Packing

namespace FittingProblem

variable {α : Type} [Scalar α] [Inhabited α]

/-- The area of every coarse cell that the sheets cover together. -/
def totalAreas (coarse : Nat) (sheets : List (GroupId × Sheet α)) : Except Error (Array α) :=
  sheets.foldlM (fun acc (_, s) => return Array.zipWith (· + ·) acc (← s.coveredAreas))
    (Array.replicate coarse 0)

/-- One over a value, or zero for zero. -/
def reciprocal (x : α) : α := if x == 0 then 0 else 1 / x

/-- The fields at the used fine cells, all of which must be finite. -/
def fineValues (fine : GroupPacking) (sheets : List (GroupId × Sheet α)) :
    Except Error (Array α) := do
  let values ← fine.pack (sheets.map fun (id, s) => (id, s.field))
  let cells := fine.pairs
  checkFinite "f2" values fun i => (cells[i]?).map fun (id, c) => .tuple [id.datum, .int c]
  return values

/-- The start at the used basis functions: zero, or a guess in which `filling` stands in for the
values that are no number. Without it there must be none of these, and nothing infinite beside
them. -/
def startingPoint (basis : Packing) (guess : Option (Tensor α)) (filling : Option α) :
    Except Error (Tensor α) := do
  match guess with
  | none => return Tensor.ofArray (Array.replicate basis.size 0)
  | some g =>
    let x ← basis.pack g
    if x.values.any Scalar.isNaN then
      match filling with
      | some v => return x.map fun w => if Scalar.isNaN w then v else w
      | none =>
        checkFinite "initial guess" x.values fun i => (basis.ids[i]?).map fun id => .int id
        return x
    else return x

/-- The program of a fit (`build_projection_problem`). The constraints have a row for every coarse
cell and a column for every basis function; with `minimum`, those that involve fewer basis functions
are dropped first. -/
def assemble (constraints : SparseMatrix α) (sheets : List (GroupId × Sheet α))
    (guess : Option (Tensor α)) (filling : Option α) (minimum : Option Number) :
    Except Error (FittingProblem α) := do
  let sheets := lastValues sheets
  let kept := minimum.elim constraints constraints.removeStarved
  sheets.forM fun (id, s) => s.check id constraints.rows constraints.cols
  let usedBasis := kept.entries.map Entry.col
    ++ sheets.flatMap fun (_, s) => s.interpolation.entries.map Entry.col
  let usedFine := sheets.flatMap fun (id, s) => s.usedCells.map fun c : Nat => (id, .whole c)
  let coarse ← Packing.ofUsed constraints.rows (kept.entries.map fun e => e.row) "space1"
  let fine ← GroupPacking.ofUsed (sheets.map fun (id, s) => (id, s.overlaps.cols)) usedFine "space2"
  let basis ← Packing.ofUsed constraints.cols (usedBasis.map Int.ofNat) "space3"
  let packed ← kept.pack (some coarse) (some basis) false
  let overlapBlocks ← sheets.mapM fun (id, s) => s.overlapBlock id coarse fine
  let interpolationBlocks ← sheets.mapM fun (id, s) => s.interpolationBlock id fine basis
  let areas ← totalAreas constraints.rows sheets
  let values ← fineValues fine sheets
  let areas ← coarse.pack (Tensor.ofArray areas)
  let overlaps : SparseMatrix α := ⟨coarse.size, fine.size, overlapBlocks.flatten⟩
  let averages ← overlaps.scaleRows (areas.map reciprocal)
  let interpolation : SparseMatrix α := ⟨fine.size, basis.size, interpolationBlocks.flatten⟩
  let square ← interpolation.transpose.multiply interpolation
  let two : α := Scalar.ofNat 2
  let lower ← square.lowerTriangle.scaleRows (Tensor.ofArray (Array.replicate basis.size two))
  let slopes ← interpolation.transpose.apply (Tensor.ofArray values) false
  return {
    lower
    linear := slopes.values.map fun v => -two * v
    constant := Scalar.dot values values
    constraints := packed
    targets := ← averages.apply (Tensor.ofArray values) false
    start := ← startingPoint basis guess filling
    coarse, fine, basis }

/-- A value for every basis function: those of a packed vector at the used ones, `blank` elsewhere
(`ProjectionProblem.expand`). -/
def expand (p : FittingProblem α) (x : Tensor α) (blank : α) : Except Error (Tensor α) :=
  p.basis.unpack x blank

end FittingProblem

/-- A way to solve a quadratic program; the number stands for a bound that is none (`QPSolver`). -/
abbrev Solver (α : Type) := QuadraticProgram α → α → Except Error (Tensor α)

/-- The solution of a fit as a value for every basis function, undefined at the unused ones
(`solve_projection`). A solution of another shape, or one that is not finite, is refused. -/
def FittingProblem.solve {α : Type} [Scalar α] [Inhabited α] (p : FittingProblem α)
    (solver : Solver α) (unbounded : α) : Except Error (Tensor α) := do
  let x ← solver p.toQuadraticProgram unbounded
  unless x.shape = [p.basis.size] do
    throw (.optimizationFailed (.solutionShape x.shape p.basis.size))
  unless x.values.all Scalar.isFinite do throw (.optimizationFailed .solutionNotFinite)
  p.expand x Scalar.undefined

end Regrid

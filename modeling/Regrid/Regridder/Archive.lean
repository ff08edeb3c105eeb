import Regrid.Regridder.Stored

/-!
# Stored weights over any scalars

A dataset holds binary numbers. Here the weights of a regridder are stored over any scalars, as the
same vectors and with the same settings, and come back by the same steps. So `Regridder.serve` is
`Regridder.reuse` wherever a store gives back what was written to it.
-/

namespace Regrid

/-- Weights as they are stored, with rows and columns counted from one. -/
structure StoredWeights (α : Type) where
  rows : Int
  cols : Int
  row : List Int
  col : List Int
  value : List α
  provenance : Provenance α

variable {α : Type} [Trigonometry α]

/-- The matrix that is stored. -/
def StoredWeights.matrix (s : StoredWeights α) : Except Error (SparseMatrix α) := do
  let m ← SparseMatrix.ofShape [.whole s.rows, .whole s.cols]
  m.addEntries (s.row.map (· - 1)) (s.col.map (· - 1)) s.value

namespace Regridder

/-- The weights of a regridder, to be stored. -/
def stored (r : Regridder α) : StoredWeights α where
  rows := r.weights.rows
  cols := r.weights.cols
  row := r.weights.entries.map fun e => (e.row : Int) + 1
  col := r.weights.entries.map fun e => (e.col : Int) + 1
  value := r.weights.entries.map Entry.value
  provenance := r.provenance

/-- The regridder with the weights of a store, for a request that they fit. -/
def ofWeights (grids : GridPair α) (options : RegridOptions α) (s : StoredWeights α) :
    Except Error (Regridder α) := do
  ofStored grids options (← s.matrix) s.provenance

/-- The regridder for a request, from stored weights if there are some, and the weights to be stored
afterwards. -/
def serve (grids : GridPair α) (options : RegridOptions α) (blocks : Option Int)
    (stored : Option (StoredWeights α)) : Except Error (Regridder α × StoredWeights α) := do
  match stored with
  | some s => return (← ofWeights grids options s, s)
  | none =>
    let r ← generate grids options blocks
    return (r, r.stored)

end Regridder

end Regrid

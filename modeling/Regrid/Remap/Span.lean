import Regrid.Scalar

/-!
# Source cells under a target cell

Along one axis the source and the target are two sequences of cells, each without gaps. A target
cell lies over a run of source cells, a `Span`: the inner ones count fully, the outermost two only
by what is left of them behind a cut. Between two target cells lies a `Seam`, which says where the
run of the one ends and where that of the other begins, so spans are made by pairing consecutive
seams.

Model of the tables of `Hntr`: `imin`, `imax`, `fmin` and `fmax` are the spans of the columns,
`jmin`, `jmax`, `gmin` and `gmax` those of the bands.
-/

namespace Regrid

/-- The run of source cells under a target cell. -/
structure Span (α : Type) where
  first : Int
  last : Int
  /-- The part of the first source cell that lies before the target cell. -/
  cutFirst : α
  /-- The part of the last source cell that lies behind the target cell. -/
  cutLast : α

/-- What an edge between two target cells does to the source. -/
structure Seam (α : Type) where
  /-- The source cell at which the target cell before the edge ends. -/
  left : Int
  /-- The part of `left` behind the edge. -/
  beyond : α
  /-- The source cell at which the target cell behind the edge begins. -/
  right : Int
  /-- The part of `right` before the edge. -/
  before : α

namespace Span

variable {α : Type}

/-- The span from one seam to the next. -/
def between (west east : Seam α) : Span α :=
  ⟨west.right, east.left, west.before, east.beyond⟩

/-- The spans between consecutive seams. -/
def ofSeams (seams : List (Seam α)) : List (Span α) :=
  List.zipWith between seams seams.tail

/-- The source cells of a span. -/
def cells (s : Span α) : List Int :=
  (List.range (s.last - s.first + 1).toNat).map fun k : Nat => s.first + k

/-- What a source cell of the span counts, if the whole of it counts `whole`. A span may begin and
end in the same source cell, which is then cut on both sides. -/
def share [Sub α] (s : Span α) (cell : Int) (whole : α) : α :=
  let cut := if cell = s.first then whole - s.cutFirst else whole
  if cell = s.last then cut - s.cutLast else cut

end Span

end Regrid

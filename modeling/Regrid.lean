import Regrid.Attempt
import Regrid.Decimal.Rounded
import Regrid.Decimal.Shortest
import Regrid.Field.Join
import Regrid.Fitting.Saddle
import Regrid.LatLon.Coordinates
import Regrid.Mesh.Area
import Regrid.Mesh.Call
import Regrid.Mesh.Condition
import Regrid.Mesh.Filter
import Regrid.Mesh.History
import Regrid.Mesh.Restore
import Regrid.Mesh.Session
import Regrid.Mesh.Structured
import Regrid.Mesh.Sweep
import Regrid.Packing.Grouped
import Regrid.Packing.Matrix
import Regrid.Regridder.Apply
import Regrid.Regridder.Archive
import Regrid.Regridder.Report
import Regrid.Regridder.Stored
import Regrid.Remap.Blocks
import Regrid.Remap.Grids
import Regrid.Sparse.Buffered
import Regrid.Sparse.Merge
import Regrid.Sparse.RowCheck
import Regrid.Sparse.Starved
import Regrid.Sparse.Stored
import Regrid.Proofs.Exact
import Regrid.Proofs.Real
import Regrid.Proofs.Remap.Seam
import Regrid.Proofs.Remap.Run
import Regrid.Proofs.Remap.Columns
import Regrid.Proofs.LatLon.Partition
import Regrid.Proofs.LatLon.Regular
import Regrid.Proofs.LatLon.Centres
import Regrid.Proofs.LatLon.RoundTrip
import Regrid.Proofs.Remap.Bands
import Regrid.Proofs.Remap.Request
import Regrid.Proofs.Sparse.Dense
import Regrid.Proofs.Remap.Operator
import Regrid.Proofs.Remap.Conservation
import Regrid.Proofs.LatLon.Intersection
import Regrid.Proofs.LatLon.Arcs
import Regrid.Proofs.Remap.Intersection
import Regrid.Proofs.Remap.Turns
import Regrid.Proofs.Remap.Transpose
import Regrid.Proofs.LatLon.Refinement
import Regrid.Proofs.Outcome
import Regrid.Proofs.Attempt
import Regrid.Proofs.Keyed
import Regrid.Proofs.Range
import Regrid.Proofs.Tensor
import Regrid.Proofs.Packing.Basic
import Regrid.Proofs.Number
import Regrid.Proofs.Packing.Pairs
import Regrid.Proofs.Packing.Grouped
import Regrid.Proofs.Packing.Vectors
import Regrid.Proofs.Packing.Search
import Regrid.Proofs.Packing.Numbers
import Regrid.Proofs.Packing.Matrix
import Regrid.Proofs.Packing.Apply
import Regrid.Proofs.Sparse.Merge
import Regrid.Proofs.Sparse.Product
import Regrid.Proofs.Sparse.Canonical
import Regrid.Proofs.Remap.Composition
import Regrid.Proofs.Fitting.LeastSquares
import Regrid.Proofs.Fitting.Assemble
import Regrid.Proofs.Fitting.Objective
import Regrid.Proofs.Fitting.Influence
import Regrid.Proofs.Fitting.Constraints
import Regrid.Proofs.Fitting.Existence
import Regrid.Proofs.Sparse.Starved
import Regrid.Proofs.Sparse.Removal
import Regrid.Proofs.Fitting.Dropped
import Regrid.Proofs.Fitting.Shapes
import Regrid.Proofs.Extended
import Regrid.Proofs.Finite
import Regrid.Proofs.Fitting.Gaps
import Regrid.Proofs.Sparse.Extended
import Regrid.Proofs.Sparse.RowCheck
import Regrid.Proofs.Remap.Extended
import Regrid.Proofs.LatLon.Extended
import Regrid.Proofs.Remap.Average
import Regrid.Proofs.Remap.PolarMean
import Regrid.Proofs.Rounding
import Regrid.Proofs.Binary
import Regrid.Proofs.Remap.Blocks
import Regrid.Proofs.Mesh.Roster
import Regrid.Proofs.Mesh.Store
import Regrid.Proofs.Mesh.Restore
import Regrid.Proofs.Mesh.RoundTrip
import Regrid.Proofs.Mesh.Calls
import Regrid.Proofs.Mesh.Reached
import Regrid.Proofs.Mesh.Declared
import Regrid.Proofs.Mesh.Damaged
import Regrid.Proofs.Mesh.History
import Regrid.Proofs.Mesh.Reachable
import Regrid.Proofs.Mesh.Sweep
import Regrid.Proofs.Mesh.Interrupted
import Regrid.Proofs.Mesh.Area
import Regrid.Proofs.Field.Weights
import Regrid.Proofs.Field.Stack
import Regrid.Proofs.Regridder.Missing
import Regrid.Proofs.Field.Polar
import Regrid.Proofs.Regridder.PolarMean
import Regrid.Proofs.Regridder.Stored
import Regrid.Proofs.Sparse.Buffered
import Regrid.Proofs.Sparse.Calls
import Regrid.Proofs.Sparse.Run
import Regrid.Proofs.Remap.Adding
import Regrid.Proofs.Sparse.Merged
import Regrid.Proofs.LatLon.Overrun
import Regrid.Proofs.Mesh.Cleared
import Regrid.Proofs.Mesh.Product
import Regrid.Proofs.Mesh.Structured
import Regrid.Proofs.Remap.Unbounded
import Regrid.Proofs.Remap.Pairs
import Regrid.Proofs.Remap.Joints
import Regrid.Proofs.Remap.Balance

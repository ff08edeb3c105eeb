import Regrid.Angle
import Regrid.Mesh.Basic

/-!
# Areas of polygons

The area of a polygon is half the sum over its edges of the cross products of their ends. It is
positive for a polygon that turns counter-clockwise. A polygon given by longitudes and latitudes
can be projected to a plane first.

Model of `Grid.vertex_xy`, `Grid.proj_area` and `Grid.ll_to_xy`.
-/

namespace Regrid

variable {α : Type}

/-- Each point of a closed polygon with the point before it. -/
def closedEdges {β : Type} (ps : List β) : List (β × β) :=
  match ps.getLast? with
  | none => []
  | some last => (last :: ps.dropLast).zip ps

section Area

variable [Scalar α]

/-- The cross product of the two ends of an edge. -/
def crossProduct (p q : α × α) : α := p.1 * q.2 - q.1 * p.2

/-- The signed area of a closed polygon. -/
def polygonArea (ps : List (α × α)) : α :=
  Scalar.sum ((closedEdges ps).map fun (p, q) => crossProduct p q) / Scalar.ofNat 2

end Area

/-! ## Projections -/

/-- A map from longitude and latitude in degrees to a plane. -/
inductive Projection (α : Type) where
  /-- The degrees themselves. -/
  | geographic
  /-- Equidistant cylindrical, in metres on a sphere. -/
  | equidistant (radius : α)
  /-- Equal-area cylindrical, in metres on a sphere. -/
  | equalArea (radius : α)

namespace Projection

variable [Trigonometry α]

/-- The radius of the sphere of the cylindrical projections, in metres. -/
def sphereRadius : α := Scalar.ofNat 6371000

/-- The projections that are known, under their texts. -/
def known : List (String × Projection α) :=
  [("EPSG:4326", geographic), ("+proj=eqc +R=6371000", equidistant sphereRadius),
    ("+proj=cea +R=6371000", equalArea sphereRadius)]

/-- The projection of a text. -/
def ofText (s : String) : Except Error (Projection α) :=
  match known.find? fun (name, _) => name == s with
  | some (_, p) => .ok p
  | none => .error .badProjection

/-- Radians of an angle in degrees. -/
def radians (degrees : α) : α := degrees * Trigonometry.degree

/-- The image of a longitude and a latitude. -/
def apply (p : Projection α) (point : α × α) : α × α :=
  match p with
  | geographic => point
  | equidistant r => (r * radians point.1, r * radians point.2)
  | equalArea r => (r * radians point.1, r * Trigonometry.sin (radians point.2))

end Projection

namespace Mesh

/-- The points of a cell in winding order (`Grid.vertex_xy`). -/
def corners (m : Mesh α) (c : Cell α) : Except Error (List (α × α)) :=
  c.refs.mapM fun ref => return ((← m.vertices.get ref).x, (← m.vertices.get ref).y)

/-- The area of a cell, projected if a projection is named, and without its sign unless that is
asked for (`Grid.proj_area`). The projection of a cell without vertices does not matter. -/
def area [Trigonometry α] (m : Mesh α) (c : Cell α) (projection : Option String)
    (signed : Bool) : Except Error α := do
  if c.refs.isEmpty then return 0
  let points ← m.corners c
  let points ← match projection with
    | none => pure points
    | some s => do
      let p ← Projection.ofText s
      pure (points.map p.apply)
  let a := polygonArea points
  return if signed then a else Scalar.abs a

/-- The point of the plane of a mesh for a longitude and a latitude (`Grid.ll_to_xy`). -/
def project [Trigonometry α] (m : Mesh α) (point : α × α) : Except Error (α × α) :=
  match m.projection with
  | none | some "" => .error (.refused (.noProjection m.name))
  | some s => return (← Projection.ofText s).apply point

end Mesh

end Regrid

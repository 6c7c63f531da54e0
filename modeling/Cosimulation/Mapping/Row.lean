import Cosimulation.Geometry.Projection
import Cosimulation.Mesh.Basic

/-!
# Interpolation rows

A row expresses a point by weighted vertices of a mesh: a single vertex of weight one, or the two or
three vertices of an edge or triangle with the weights of the projection of the point.
-/

namespace Cosimulation.Mapping

/-- A vertex with a weight. -/
structure Element (α : Type) where
  vertex : Nat
  weight : α
  deriving Repr, DecidableEq

/-- The weighted vertices that express one point. -/
abbrev Row (α : Type) := List (Element α)

variable {α : Type} [Scalar α]

/-- The row of a single vertex. -/
def vertexRow (v : Nat) : Row α := [⟨v, 1⟩]

/-- The row of the projection of a point onto the line through an edge; `none` for an edge without
length. -/
def edgeRow (m : Mesh α) (e : Edge) (p : Point α) :
    Except (Violation α) (Option (Row α)) := do
  let (a, b) ← m.edgePoints e
  return (Geometry.segmentParameter p a b).map fun t => [⟨e.ends.1, 1 - t⟩, ⟨e.ends.2, t⟩]

/-- The row of the projection of a point onto the plane of a triangle; `none` for a triangle without
area. -/
def triangleRow (m : Mesh α) (t : Triangle) (p : Point α) :
    Except (Violation α) (Option (Row α)) := do
  let (a, b, c) ← m.trianglePoints t
  return (Geometry.barycentric p a b c).map fun (u, v, w) =>
    [⟨t.corners.1, u⟩, ⟨t.corners.2.1, v⟩, ⟨t.corners.2.2, w⟩]

/-- Whether no weight is negative, so that the projection lies within the edge or triangle. -/
def isInside (row : Row α) : Bool := row.all fun e => 0 ≤ e.weight

end Cosimulation.Mapping

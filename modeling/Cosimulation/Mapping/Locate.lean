import Cosimulation.Mapping.Config
import Cosimulation.Mapping.Row
import Cosimulation.Search.Index

/-!
# Locating points on a mesh

`locate` finds the row of a point on a mesh. The nearest-neighbour method takes the nearest vertex.
The nearest-projection method takes, of the few nearest triangles, the first that contains the
projection of the point; failing that an edge in the same way, and failing that the nearest vertex.
Triangles are looked at in space only, not in the plane.

Which shapes are near is asked of a mesh index, which may be older than the mesh; the rows are
always computed on the mesh itself. A shape that the mesh no longer has is a violation.
-/

namespace Cosimulation.Mapping

open Search

variable {α : Type} [Scalar α] [SearchOrder α]

/-- How many near shapes of a kind are tried. -/
def candidates : Nat := 4

/-- The first hit whose row exists and lies inside. -/
def firstInside (row : Nat → Except (Violation α) (Option (Row α))) :
    List (Hit α) → Except (Violation α) (Option (Row α))
  | [] => .ok none
  | h :: hs => do
    match ← row h.index with
    | some r => if isInside r then .ok (some r) else firstInside row hs
    | none => firstInside row hs

/-- The row of a point on the triangle at a position. -/
def rowOnTriangle (m : Mesh α) (p : Point α) (t : Nat) : Except (Violation α) (Option (Row α)) :=
  match m.triangles[t]? with
  | some triangle => triangleRow m triangle p
  | none => .error .bounds

/-- The row of a point on the edge at a position. -/
def rowOnEdge (m : Mesh α) (p : Point α) (e : Nat) : Except (Violation α) (Option (Row α)) :=
  match m.edges[e]? with
  | some edge => edgeRow m edge p
  | none => .error .bounds

/-- The row of the nearest vertex; empty on a mesh without vertices. -/
def locateVertex (m : Mesh α) (i : MeshIndex α) (p : Point α) : Row α × MeshIndex α :=
  let (tree, i) := i.forVertices m
  match nearestPoints tree p 1 with
  | h :: _ => (vertexRow h.index, i)
  | [] => ([], i)

/-- The row of the first near triangle that contains the projection. -/
def locateTriangle (m : Mesh α) (i : MeshIndex α) (p : Point α) :
    Except (Violation α) (Option (Row α) × MeshIndex α) := do
  let (tree, i) ← i.forTriangles m
  let row ← firstInside (rowOnTriangle m p) (nearestTriangles tree p candidates)
  return (row, i)

/-- The row of the first near edge that contains the projection. -/
def locateEdge (m : Mesh α) (i : MeshIndex α) (p : Point α) :
    Except (Violation α) (Option (Row α) × MeshIndex α) := do
  let (tree, i) ← i.forEdges m
  let row ← firstInside (rowOnEdge m p) (nearestSegments tree p candidates)
  return (row, i)

/-- The row of an edge or, failing that, of the nearest vertex. -/
def locateEdgeOrVertex (m : Mesh α) (i : MeshIndex α) (p : Point α) :
    Except (Violation α) (Row α × MeshIndex α) := do
  match ← locateEdge m i p with
  | (some row, i) => return (row, i)
  | (none, i) => return locateVertex m i p

/-- The row of a point on a mesh, and the index with the trees that were needed. -/
def locate (method : Method) (dimensions : Nat) (m : Mesh α) (i : MeshIndex α) (p : Point α) :
    Except (Violation α) (Row α × MeshIndex α) :=
  match method with
  | .nearestNeighbor => .ok (locateVertex m i p)
  | .nearestProjection =>
    if dimensions = 3 then do
      match ← locateTriangle m i p with
      | (some row, i) => return (row, i)
      | (none, i) => locateEdgeOrVertex m i p
    else locateEdgeOrVertex m i p

/-- The rows of several points. -/
def locateAll (method : Method) (dimensions : Nat) (m : Mesh α) :
    MeshIndex α → List (Point α) → Except (Violation α) (List (Row α) × MeshIndex α)
  | i, [] => .ok ([], i)
  | i, p :: ps => do
    let (row, i) ← locate method dimensions m i p
    let (rows, i) ← locateAll method dimensions m i ps
    return (row :: rows, i)

end Cosimulation.Mapping

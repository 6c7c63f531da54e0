import Cosimulation.Mesh.Basic
import Cosimulation.Search.Tree

/-!
# Mesh indices and their cache

A `MeshIndex` holds one search tree each for the vertices, edges and triangles of a mesh. A tree is
built from the mesh by the first query that needs it and is not touched afterwards: it answers for
the mesh as it was then.

A `Cache` hands out indices by mesh ID. An index that was handed out keeps existing when its entry
is dropped; the next request for the mesh then gets a new index. Whoever changes a mesh has to drop
its entry.
-/

namespace Cosimulation.Search

/-- The search trees of one mesh, as far as they were needed. -/
structure MeshIndex (α : Type) where
  vertices : Option (Tree (Point α)) := none
  edges : Option (Tree (Segment α)) := none
  triangles : Option (Tree (Corners α)) := none

variable {α : Type}

/-- The search tree of the vertices of a mesh. -/
def vertexTree (m : Mesh α) : Tree (Point α) := ⟨m.vertices.map fun v => (v.id, v.position)⟩

/-- The search tree of the edges of a mesh. -/
def edgeTree (m : Mesh α) : Except (Violation α) (Tree (Segment α)) := do
  let entries ← m.edges.mapM fun e => do return (e.id, ← m.edgePoints e)
  return ⟨entries⟩

/-- The search tree of the triangles of a mesh. -/
def triangleTree (m : Mesh α) : Except (Violation α) (Tree (Corners α)) := do
  let entries ← m.triangles.mapM fun t => do return (t.id, ← m.trianglePoints t)
  return ⟨entries⟩

namespace MeshIndex

/-- The vertex tree, built if there is none, and the index that keeps it. -/
def forVertices (i : MeshIndex α) (m : Mesh α) : Tree (Point α) × MeshIndex α :=
  match i.vertices with
  | some t => (t, i)
  | none => (vertexTree m, { i with vertices := some (vertexTree m) })

/-- The edge tree, built if there is none, and the index that keeps it. -/
def forEdges (i : MeshIndex α) (m : Mesh α) :
    Except (Violation α) (Tree (Segment α) × MeshIndex α) :=
  match i.edges with
  | some t => .ok (t, i)
  | none => do
    let t ← edgeTree m
    .ok (t, { i with edges := some t })

/-- The triangle tree, built if there is none, and the index that keeps it. -/
def forTriangles (i : MeshIndex α) (m : Mesh α) :
    Except (Violation α) (Tree (Corners α) × MeshIndex α) :=
  match i.triangles with
  | some t => .ok (t, i)
  | none => do
    let t ← triangleTree m
    .ok (t, { i with triangles := some t })

/-- How many shapes each tree holds, for trees that were built, as text. -/
def summary (i : MeshIndex α) : String :=
  let size : Option Nat → String
    | some n => s!"Some({n})"
    | none => "None"
  "MeshIndex \x7b vertices: " ++ size (i.vertices.map (·.entries.length))
    ++ ", edges: " ++ size (i.edges.map (·.entries.length))
    ++ ", triangles: " ++ size (i.triangles.map (·.entries.length)) ++ " \x7d"

end MeshIndex

/-- The number of an index that was handed out. -/
abbrev Handle := Nat

/-- All indices that were handed out, and which of them is current for a mesh. -/
structure Cache (α : Type) where
  indices : List (MeshIndex α) := []
  current : List (MeshId × Handle) := []

namespace Cache

/-- The current index of a mesh; a new one if there is none. -/
def handle (c : Cache α) (mesh : MeshId) : Handle × Cache α :=
  match c.current.lookup mesh with
  | some h => (h, c)
  | none =>
    let h := c.indices.length
    (h, { indices := c.indices ++ [{}], current := c.current ++ [(mesh, h)] })

/-- An index that was handed out. -/
def index (c : Cache α) (h : Handle) : MeshIndex α := c.indices[h]?.getD {}

/-- Keeps the trees that a query has built. -/
def update (c : Cache α) (h : Handle) (i : MeshIndex α) : Cache α :=
  { c with indices := c.indices.set h i }

/-- Drops the entry of a mesh. -/
def clear (c : Cache α) (mesh : MeshId) : Cache α :=
  { c with current := c.current.filter fun e => e.1 != mesh }

/-- Drops every entry. -/
def clearAll (c : Cache α) : Cache α := { c with current := [] }

/-- Whether a mesh has an entry. -/
def contains (c : Cache α) (mesh : MeshId) : Bool := (c.current.lookup mesh).isSome

/-- The number of entries. -/
def size (c : Cache α) : Nat := c.current.length

end Cache

end Cosimulation.Search

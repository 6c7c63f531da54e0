import Cosimulation.Geometry.Box
import Cosimulation.Vec

/-!
# Meshes

A mesh is an ordered list of vertices with edges between vertices and triangles made of edges; an
entity is addressed by its position, which is also its ID. On the vertices live data fields, each
with a fixed number of scalars per vertex.

Positions are points of space; a mesh of dimension two keeps `z = 0`.

Every constructor checks what it refers to: an edge refers to existing vertices, and a triangle to
three existing edges that close up over three different vertices (`closedTriangle?`). Nothing checks
the length of a field against the number of vertices until someone asks (`validate`); after vertices
were added, `allocate` brings the fields to length.
-/

namespace Cosimulation

/-- A vertex, with the index it has across all processes, if any, and a mark that a mapping needs
it. -/
structure Vertex (α : Type) where
  id : Nat
  position : Point α
  globalIndex : Option UInt64 := none
  tagged : Bool := false

/-- An edge between two vertices. -/
structure Edge where
  id : Nat
  ends : Nat × Nat
  deriving Repr, DecidableEq

/-- A triangle with its three edges and its three corners. -/
structure Triangle where
  id : Nat
  edges : Nat × Nat × Nat
  corners : Nat × Nat × Nat
  deriving Repr, DecidableEq

/-- The values of one quantity on the vertices. -/
structure Field (α : Type) where
  id : DataId
  name : String
  dimension : Nat
  values : Vec α

/-- Vertices, edges, triangles and data fields. -/
structure Mesh (α : Type) where
  id : MeshId
  name : String
  dimensions : Nat
  vertices : List (Vertex α) := []
  edges : List Edge := []
  triangles : List Triangle := []
  fields : List (Field α) := []

/-- Whether a number is an end of an edge. -/
def isEnd (v : Nat) (e : Nat × Nat) : Bool := v == e.1 || v == e.2

/-- The end of an edge that is not the given one. -/
def otherEnd (v : Nat) (e : Nat × Nat) : Nat := if e.1 = v then e.2 else e.1

/-- The corners of the triangle that three edges form: the ends of the first edge in its direction,
and the end of the second edge that is not on the first. The third edge has to join what the first
two leave open, and the corners have to differ. -/
def closedTriangle? (a b c : Nat × Nat) : Option (Nat × Nat × Nat) :=
  let shared? :=
    if isEnd a.1 b then some a.1
    else if isEnd a.2 b then some a.2
    else none
  match shared? with
  | none => none
  | some shared =>
    let free := otherEnd shared a
    let apex := otherEnd shared b
    let closes := c = (apex, free) ∨ c = (free, apex)
    if ¬ closes ∨ free = apex ∨ free = shared ∨ apex = shared then none
    else some (a.1, a.2, apex)

namespace Mesh

variable {α : Type}

/-- An empty mesh of two or three dimensions. -/
def new (id : MeshId) (name : String) (dimensions : Nat) : Except (Violation α) (Mesh α) :=
  if dimensions = 2 ∨ dimensions = 3 then .ok { id, name, dimensions }
  else .error (.meshDimensions dimensions)

/-! ## Adding entities -/

/-- The position that coordinates of the given dimension name. -/
def position? [Zero α] : (dimensions : Nat) → List α → Option (Point α)
  | 2, [x, y] => some ⟨x, y, 0⟩
  | 3, [x, y, z] => some ⟨x, y, z⟩
  | _, _ => none

/-- Appends a vertex. -/
def addVertex [Zero α] (m : Mesh α) (coordinates : List α) : Except (Fault α) (Mesh α) :=
  match position? m.dimensions coordinates with
  | none => .error (.coordinateDimension m.name m.dimensions coordinates.length)
  | some position =>
    .ok { m with vertices := m.vertices ++ [{ id := m.vertices.length, position }] }

/-- Appends an edge; the first end that does not exist is named. -/
def addEdge (m : Mesh α) (a b : Nat) : Except (Fault α) (Mesh α) :=
  let count := m.vertices.length
  if count ≤ a then .error (.invalidEdge m.name a count)
  else if count ≤ b then .error (.invalidEdge m.name b count)
  else .ok { m with edges := m.edges ++ [⟨m.edges.length, (a, b)⟩] }

/-- The corners of the triangle formed by three edges of the mesh. -/
def corners? (m : Mesh α) : Nat × Nat × Nat → Option (Nat × Nat × Nat)
  | (a, b, c) => do
    closedTriangle? (← m.edges[a]?).ends (← m.edges[b]?).ends (← m.edges[c]?).ends

/-- Appends a triangle. -/
def addTriangle (m : Mesh α) (edges : Nat × Nat × Nat) : Except (Fault α) (Mesh α) :=
  match m.corners? edges with
  | none => .error (.invalidTriangle m.name edges)
  | some corners =>
    .ok { m with triangles := m.triangles ++ [⟨m.triangles.length, edges, corners⟩] }

/-! ## Points -/

/-- The position of a vertex. -/
def vertexPoint (m : Mesh α) (v : Nat) : Except (Violation α) (Point α) :=
  match m.vertices[v]? with
  | some vertex => .ok vertex.position
  | none => .error .bounds

/-- The ends of an edge. -/
def edgePoints (m : Mesh α) (e : Edge) : Except (Violation α) (Point α × Point α) := do
  return (← m.vertexPoint e.ends.1, ← m.vertexPoint e.ends.2)

/-- The corners of a triangle. -/
def trianglePoints (m : Mesh α) (t : Triangle) :
    Except (Violation α) (Point α × Point α × Point α) := do
  return (← m.vertexPoint t.corners.1, ← m.vertexPoint t.corners.2.1,
    ← m.vertexPoint t.corners.2.2)

/-- The least box over all vertices. -/
def boundingBox? [Scalar α] (m : Mesh α) : Option (Box α) :=
  Box.ofPoints? (m.vertices.map Vertex.position)

/-! ## Single vertices -/

/-- Changes one vertex. -/
def modifyVertex (m : Mesh α) (v : Nat) (f : Vertex α → Vertex α) :
    Except (Violation α) (Mesh α) :=
  if v < m.vertices.length then .ok { m with vertices := m.vertices.modify v f }
  else .error .bounds

/-- Gives a vertex its index across all processes. -/
def setGlobalIndex (m : Mesh α) (v : Nat) (index : UInt64) : Except (Violation α) (Mesh α) :=
  m.modifyVertex v fun vertex => { vertex with globalIndex := some index }

/-- Marks a vertex. -/
def tag (m : Mesh α) (v : Nat) : Except (Violation α) (Mesh α) :=
  m.modifyVertex v fun vertex => { vertex with tagged := true }

/-- Takes the mark off a vertex. -/
def untag (m : Mesh α) (v : Nat) : Except (Violation α) (Mesh α) :=
  m.modifyVertex v fun vertex => { vertex with tagged := false }

/-- Takes the mark off every vertex. -/
def untagAll (m : Mesh α) : Mesh α :=
  { m with vertices := m.vertices.map fun vertex => { vertex with tagged := false } }

/-- The marked vertices. -/
def taggedVertices (m : Mesh α) : List (Vertex α) := m.vertices.filter Vertex.tagged

/-! ## Fields -/

/-- Adds a field of zeros. Its dimension has to be positive. -/
def addField [Zero α] (m : Mesh α) (id : DataId) (name : String) (dimension : Nat) :
    Except (Violation α) (Mesh α) :=
  if dimension = 0 then .error .fieldDimension
  else do
    let values ← zeros (← scalarCount m.vertices.length dimension)
    .ok { m with fields := m.fields ++ [⟨id, name, dimension, values⟩] }

/-- The first field with an ID. -/
def field (m : Mesh α) (id : DataId) : Except (Fault α) (Field α) :=
  match m.fields.find? fun f => f.id == id with
  | some f => .ok f
  | none => .error (.missingMeshData m.id id)

/-- Replaces the values of the first field with an ID. -/
def setValues (id : DataId) (values : Vec α) : List (Field α) → List (Field α)
  | [] => []
  | f :: fs => if f.id = id then { f with values } :: fs else f :: setValues id values fs

/-- Replaces the values of a field. -/
def withValues (m : Mesh α) (id : DataId) (values : Vec α) : Mesh α :=
  { m with fields := setValues id values m.fields }

/-- A field brought to the length for a number of vertices: what it holds is kept as far as there is
room, and the rest is zero. -/
def Field.fit [Zero α] (vertices : Nat) (f : Field α) : Except (Violation α) (Field α) := do
  let size ← scalarCount vertices f.dimension
  if f.values.length = size then return f
  let blank ← zeros size
  let kept := f.values.take size
  return { f with values := kept ++ blank.drop kept.length }

/-- Brings every field to length. -/
def allocate [Zero α] (m : Mesh α) : Except (Violation α) (Mesh α) := do
  let fields ← m.fields.mapM (Field.fit m.vertices.length)
  return { m with fields }

/-- Drops all vertices, edges and triangles, and the values of all fields. -/
def clear (m : Mesh α) : Mesh α :=
  { m with
    vertices := []
    edges := []
    triangles := []
    fields := m.fields.map fun f => { f with values := [] } }

/-! ## Checking -/

/-- The first vertex whose ID is not its position. -/
def misplacedVertex? (m : Mesh α) : Option (ConfigurationFault α) :=
  m.vertices.zipIdx.findSome? fun (v, i) =>
    if v.id = i then none else some (.misplacedVertex i v.id)

/-- The first edge end that is no vertex. -/
def danglingEnd? (m : Mesh α) : Option Nat :=
  m.edges.findSome? fun e => [e.ends.1, e.ends.2].find? fun v => m.vertices.length ≤ v

/-- The first triangle whose corners are not those its edges form. -/
def openTriangle? (m : Mesh α) : Option Triangle :=
  m.triangles.find? fun t => m.corners? t.edges ≠ some t.corners

/-- Checks that every field has as many values as the vertices need. -/
def validateFields (vertices : Nat) : List (Field α) → Except (Failure α) Unit
  | [] => .ok ()
  | f :: fs => do
    let size ← (scalarCount vertices f.dimension).mapError .violation
    if f.values.length = size then validateFields vertices fs
    else .error (.fault (.dataSizeMismatch f.id size f.values.length))

/-- Checks the whole mesh: IDs, edges, triangles, then fields. -/
def validate (m : Mesh α) : Except (Failure α) Unit :=
  match m.misplacedVertex?, m.danglingEnd?, m.openTriangle? with
  | some fault, _, _ => .error (.fault (.invalidConfiguration fault))
  | _, some v, _ => .error (.fault (.invalidEdge m.name v m.vertices.length))
  | _, _, some t => .error (.fault (.invalidTriangle m.name t.edges))
  | none, none, none => validateFields m.vertices.length m.fields

/-- A mesh that passes its check; one that does not is a violation. -/
def checked (m : Mesh α) : Except (Violation α) Unit :=
  match m.validate with
  | .ok () => .ok ()
  | .error (.fault fault) => .error (.brokenMesh fault)
  | .error (.violation violation) => .error violation

end Mesh

end Cosimulation

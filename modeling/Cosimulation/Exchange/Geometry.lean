import Cosimulation.Exchange.Mailbox
import Cosimulation.Mesh.Basic
import Cosimulation.Wire.Records

/-!
# Messages of meshes and boxes

A mesh travels as one message: its vertices with their global indices, its edges and its triangles.
Whoever receives it rebuilds it entity by entity with the constructors of a mesh, so that bytes that
describe no mesh are refused like any other mesh that cannot be built. Marks and data fields stay
behind.
-/

namespace Cosimulation.Exchange

open Wire

/-! ## Meshes -/

/-- The record of a vertex. -/
def vertexRecord (v : Vertex Double) : VertexRecord := ⟨v.position, v.globalIndex⟩

/-- The record of an edge. -/
def edgeRecord (e : Edge) : EdgeRecord := ⟨.ofNat e.ends.1, .ofNat e.ends.2⟩

/-- The record of a triangle. -/
def triangleRecord (t : Triangle) : TriangleRecord :=
  ⟨.ofNat t.edges.1, .ofNat t.edges.2.1, .ofNat t.edges.2.2⟩

/-- The header of the message of a mesh. -/
def meshHeader (m : Mesh Double) : MeshHeader :=
  { header := .ofKind meshKind
    dimensions := .ofNat m.dimensions
    vertices := .ofNat m.vertices.length
    edges := .ofNat m.edges.length
    triangles := .ofNat m.triangles.length }

/-- The message of a mesh. -/
def encodeMesh (m : Mesh Double) : Bytes :=
  Record.encode (meshHeader m)
    ++ encodeAll (m.vertices.map vertexRecord)
    ++ encodeAll (m.edges.map edgeRecord)
    ++ encodeAll (m.triangles.map triangleRecord)

/-- Appends the vertex of a record, with as many coordinates as the mesh has dimensions. -/
def addVertexRecord (m : Mesh Double) (r : VertexRecord) : Except (Fault Double) (Mesh Double) := do
  let m' ← m.addVertex (r.position.toList.take m.dimensions)
  match r.globalIndex with
  | none => .ok m'
  | some g =>
    .ok { m' with
      vertices := m'.vertices.modify m.vertices.length fun v => { v with globalIndex := some g } }

/-- Appends the edge of a record. -/
def addEdgeRecord (m : Mesh Double) (r : EdgeRecord) : Except (Fault Double) (Mesh Double) :=
  m.addEdge r.a.toNat r.b.toNat

/-- Appends the triangle of a record. -/
def addTriangleRecord (m : Mesh Double) (r : TriangleRecord) :
    Except (Fault Double) (Mesh Double) :=
  m.addTriangle (r.a.toNat, r.b.toNat, r.c.toNat)

/-- The records in a part of a message. -/
def recordsBetween (ρ : Type) [Record ρ] (bytes : Bytes) (start stop : Nat) :
    Except (Fault Double) (List ρ) :=
  (decodeAll ρ ((bytes.take stop).drop start)).mapError .format

/-- The mesh that a message describes. -/
def decodeMesh (id : MeshId) (name : String) (bytes : Bytes) :
    Except (Fault Double) (Mesh Double) := do
  let head := Record.size MeshHeader
  if bytes.length < head then .error (.format (.shortMeshHeader bytes.length))
  let h : MeshHeader := Record.decode (bytes.take head)
  (h.header.check meshKind).mapError .format
  let verticesEnd := head + h.vertices.toNat * Record.size VertexRecord
  let edgesEnd := verticesEnd + h.edges.toNat * Record.size EdgeRecord
  let stop := edgesEnd + h.triangles.toNat * Record.size TriangleRecord
  (expectLength bytes.length stop).mapError .format
  let dimensions := h.dimensions.toNat
  if dimensions ≠ 2 ∧ dimensions ≠ 3 then .error (.format (.meshDimensions dimensions))
  let vertices ← recordsBetween VertexRecord bytes head verticesEnd
  let withVertices ← vertices.foldlM addVertexRecord { id, name, dimensions }
  let edges ← recordsBetween EdgeRecord bytes verticesEnd edgesEnd
  let withEdges ← edges.foldlM addEdgeRecord withVertices
  let triangles ← recordsBetween TriangleRecord bytes edgesEnd stop
  triangles.foldlM addTriangleRecord withEdges

/-- Sends a mesh. -/
def sendMesh (e : Endpoint) (peer : Rank) (tag : Tag) (m : Mesh Double) (box : Mailbox) : Mailbox :=
  e.post peer tag (encodeMesh m) box

/-- Receives a mesh under a new ID and name. -/
def receiveMesh (e : Endpoint) (peer : Rank) (tag : Tag) (id : MeshId) (name : String)
    (box : Mailbox) : Except (Fault Double) (Mesh Double) × Mailbox :=
  match e.receiveWith peer tag .ok box with
  | (.error fault, box') => (.error fault, box')
  | (.ok bytes, box') => (decodeMesh id name bytes, box')

/-! ## Boxes -/

/-- The box in the records of a message. -/
def boxOfRecords : List BoxRecord → Except (Fault Double) (Box Double)
  | [r] => ((r.header.check boxKind).mapError .format).map fun _ => r.box
  | records => .error (.format (.boxCount records.length))

/-- Sends a box. -/
def sendBox (e : Endpoint) (peer : Rank) (tag : Tag) (b : Box Double) (box : Mailbox) : Mailbox :=
  e.send peer tag [BoxRecord.ofBox b] box

/-- Receives a box. -/
def receiveBox (e : Endpoint) (peer : Rank) (tag : Tag) (box : Mailbox) :
    Except (Fault Double) (Box Double) × Mailbox :=
  match e.receiveAll BoxRecord peer tag box with
  | (.error fault, box') => (.error fault, box')
  | (.ok records, box') => (boxOfRecords records, box')

end Cosimulation.Exchange

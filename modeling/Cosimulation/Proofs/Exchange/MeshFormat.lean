import Cosimulation.Proofs.Exchange.MeshMessages
import Cosimulation.Proofs.Mesh.Triangles
import Cosimulation.Proofs.Wire.Positions

/-!
# Which bytes describe a mesh

`MeshFormat` says of bytes, by the numbers at their positions and without reading records, that they
are a mesh message: version and kind, the dimension, a length that agrees with the three counts, and
entities that refer to what is there.

A message is read in two steps. What stands at its front decides whether its records are read at all
(`screen_ok_iff`); the records then stand at the positions that follow from the counts
(`decodeParts_eq`), and are taken in one after the other. Since a vertex can always be appended, and
appending an entity does not change what is asked of those behind it (`foldlM_ok_iff`), exactly the
bytes in the format are read (`decodeMesh_ok_iff`). What is read passes the check of a mesh
(`validate_of_decodeMesh`).
-/

namespace Cosimulation.Exchange

open Wire

/-! ## The format -/

/-- The number of vertices that a message announces. -/
def vertexCount (bytes : Bytes) : Nat := numberAt bytes 12 4

/-- The number of edges that a message announces. -/
def edgeCount (bytes : Bytes) : Nat := numberAt bytes 16 4

/-- The number of triangles that a message announces. -/
def triangleCount (bytes : Bytes) : Nat := numberAt bytes 20 4

/-- Where the edges of a message begin. -/
def edgesStart (bytes : Bytes) : Nat := 24 + vertexCount bytes * 32

/-- Where the triangles of a message begin. -/
def trianglesStart (bytes : Bytes) : Nat := edgesStart bytes + edgeCount bytes * 16

/-- The two vertices of an edge of a message. -/
def edgeAt (bytes : Bytes) (i : Nat) : Nat × Nat :=
  (numberAt bytes (edgesStart bytes + i * 16) 8, numberAt bytes (edgesStart bytes + i * 16 + 8) 8)

/-- The three edges of a triangle of a message. -/
def triangleAt (bytes : Bytes) (i : Nat) : Nat × Nat × Nat :=
  (numberAt bytes (trianglesStart bytes + i * 24) 8,
    numberAt bytes (trianglesStart bytes + i * 24 + 8) 8,
    numberAt bytes (trianglesStart bytes + i * 24 + 16) 8)

/-- The three edges exist and are the sides of a triangle. -/
def ClosesIn (bytes : Bytes) : Nat × Nat × Nat → Prop
  | (a, b, c) => a < edgeCount bytes ∧ b < edgeCount bytes ∧ c < edgeCount bytes ∧
    FormTriangle (edgeAt bytes a) (edgeAt bytes b) (edgeAt bytes c)

/-- The front of a mesh message: its header, and the length that follows from it. -/
structure MeshFront (bytes : Bytes) : Prop where
  header : 24 ≤ bytes.length
  version : numberAt bytes 0 2 = 1
  kind : numberAt bytes 2 2 = 1
  dimensions : numberAt bytes 8 4 = 2 ∨ numberAt bytes 8 4 = 3
  length : bytes.length =
    24 + vertexCount bytes * 32 + edgeCount bytes * 16 + triangleCount bytes * 24

/-- The bytes are a mesh message. -/
structure MeshFormat (bytes : Bytes) : Prop extends MeshFront bytes where
  edges : ∀ i < edgeCount bytes,
    (edgeAt bytes i).1 < vertexCount bytes ∧ (edgeAt bytes i).2 < vertexCount bytes
  triangles : ∀ i < triangleCount bytes, ClosesIn bytes (triangleAt bytes i)

/-! ## Taking in records one after the other -/

section
variable {σ ρ ε β : Type} {add : σ → ρ → Except ε σ}

/-- If taking in a record does not change what is asked of the others, then all are taken in exactly
if each of them would be. -/
theorem foldlM_ok_iff {P : σ → ρ → Prop} (hgood : ∀ s r, (∃ s', add s r = .ok s') ↔ P s r)
    (hsame : ∀ {s s' r}, add s r = .ok s' → ∀ r', P s' r' ↔ P s r') {rs : List ρ} :
    ∀ {s : σ}, (∃ s', rs.foldlM add s = .ok s') ↔ ∀ r ∈ rs, P s r := by
  induction rs with
  | nil => exact fun {s} => ⟨fun _ r hr => absurd hr List.not_mem_nil, fun _ => ⟨s, rfl⟩⟩
  | cons r rs ih =>
    intro s
    rw [List.forall_mem_cons, ← hgood]
    constructor
    · rintro ⟨s', h⟩
      obtain ⟨s₁, hr, hrs⟩ := bind_ok h
      exact ⟨⟨s₁, hr⟩, fun r' hr' => (hsame hr r').1 (ih.1 ⟨s', hrs⟩ r' hr')⟩
    · rintro ⟨⟨s₁, hr⟩, hrs⟩
      rw [List.foldlM_cons, hr]
      exact ih.2 fun r' hr' => (hsame hr r').2 (hrs r' hr')

/-- What taking in a record keeps, taking in several keeps. -/
theorem foldlM_keeps {P : σ → Prop} (hadd : ∀ {s s' r}, add s r = .ok s' → P s → P s')
    {rs : List ρ} : ∀ {s s' : σ}, rs.foldlM add s = .ok s' → P s → P s' := by
  induction rs with
  | nil =>
    intro s s' h hs
    obtain rfl := Except.ok.inj h
    exact hs
  | cons r rs ih =>
    intro s s' h hs
    obtain ⟨s₁, hr, hrs⟩ := bind_ok h
    exact ih hrs (hadd hr hs)

/-- If each record appends its entry to a list, then several append theirs. -/
theorem foldlM_appends {v : σ → List β} {entry : ρ → β}
    (hadd : ∀ {s s' r}, add s r = .ok s' → v s' = v s ++ [entry r]) {rs : List ρ} :
    ∀ {s s' : σ}, rs.foldlM add s = .ok s' → v s' = v s ++ rs.map entry := by
  induction rs with
  | nil =>
    intro s s' h
    obtain rfl := Except.ok.inj h
    exact (List.append_nil _).symm
  | cons r rs ih =>
    intro s s' h
    obtain ⟨s₁, hr, hrs⟩ := bind_ok h
    rw [ih hrs, hadd hr, List.append_assoc, List.map_cons]
    rfl

end

/-! ## Entities -/

section
variable {m m' : Mesh Double}

/-- A vertex can always be appended to a mesh of two or three dimensions. -/
theorem addVertexRecord_total (h : m.Consistent) (r : VertexRecord) : ∃ v,
    addVertexRecord m r = .ok { m with vertices := m.vertices ++ [v] } ∧
      ({ m with vertices := m.vertices ++ [v] } : Mesh Double).Consistent := by
  obtain ⟨p, g⟩ := r
  -- in the plane the third coordinate is not looked at
  obtain ⟨q, hq, flat⟩ : ∃ q : Point Double,
      p.toList.take m.dimensions = q.toList.take m.dimensions ∧ (m.dimensions = 2 → q.z = 0) := by
    rcases h.dimensions with hd | hd
    · exact ⟨{ p with z := 0 }, by rw [hd]; rfl, fun _ => rfl⟩
    · exact ⟨p, rfl, fun h2 => by omega⟩
  have hadd : addVertexRecord m ⟨p, g⟩ = addVertexRecord m ⟨q, g⟩ := by
    unfold addVertexRecord
    rw [hq]
  refine ⟨⟨m.vertices.length, q, g, false⟩, hadd.trans (addVertexRecord_eq g h.dimensions flat), ?_⟩
  refine (h.change (.vertex q flat)).change (.marks _ ?_)
  simp [Vertex.place]

/-- Vertices can always be appended, and nothing else changes. -/
theorem foldlM_addVertexRecord_total (rs : List VertexRecord) : ∀ {m : Mesh Double},
    m.Consistent → ∃ vs, rs.foldlM addVertexRecord m =
      .ok { m with vertices := m.vertices ++ vs } ∧ vs.length = rs.length ∧
        ({ m with vertices := m.vertices ++ vs } : Mesh Double).Consistent := by
  induction rs with
  | nil => exact fun {m} h => ⟨[], by simp [pure, Except.pure], rfl, by simpa using h⟩
  | cons r rs ih =>
    intro m h
    obtain ⟨v, hv, h₁⟩ := addVertexRecord_total h r
    obtain ⟨vs, hvs, hl, h₂⟩ := ih h₁
    refine ⟨v :: vs, ?_, congrArg (· + 1) hl, by simpa using h₂⟩
    rw [List.foldlM_cons, hv]
    simp only [List.append_assoc, List.singleton_append] at hvs
    exact hvs

theorem addEdge_ok_iff {a b : Nat} : m.addEdge a b = .ok m' ↔
    (a < m.vertices.length ∧ b < m.vertices.length) ∧
      { m with edges := m.edges ++ [⟨m.edges.length, (a, b)⟩] } = m' := by
  unfold Mesh.addEdge
  dsimp only
  by_cases ha : m.vertices.length ≤ a
  · rw [if_pos ha]
    exact ⟨nofun, fun h => by omega⟩
  · by_cases hb : m.vertices.length ≤ b
    · rw [if_neg ha, if_pos hb]
      exact ⟨nofun, fun h => by omega⟩
    · rw [if_neg ha, if_neg hb, Except.ok.injEq]
      exact ⟨fun h => ⟨by omega, h⟩, fun h => h.2⟩

/-- Edges can be appended if their ends exist. -/
theorem foldlM_addEdgeRecord_ok_iff {rs : List EdgeRecord} :
    (∃ m', rs.foldlM addEdgeRecord m = .ok m') ↔
      ∀ r ∈ rs, r.a.toNat < m.vertices.length ∧ r.b.toNat < m.vertices.length := by
  let Good (m : Mesh Double) (r : EdgeRecord) : Prop :=
    r.a.toNat < m.vertices.length ∧ r.b.toNat < m.vertices.length
  refine foldlM_ok_iff (P := Good) (fun m r => ?_) ?_
  · exact ⟨fun ⟨_, h⟩ => (addEdge_ok_iff.1 h).1, fun h => ⟨_, addEdge_ok_iff.2 ⟨h, rfl⟩⟩⟩
  · intro m m' r h r'
    obtain ⟨-, rfl⟩ := addEdge_ok_iff.1 h
    exact Iff.rfl

/-- The edges of a mesh after edges were appended. -/
theorem ends_foldlM_addEdgeRecord {rs : List EdgeRecord} (h : rs.foldlM addEdgeRecord m = .ok m') :
    m'.edges.map Edge.ends = m.edges.map Edge.ends ++ rs.map EdgeRecord.pair := by
  refine foldlM_appends (v := fun m : Mesh Double => m.edges.map Edge.ends) ?_ h
  intro m m' r h
  obtain ⟨-, rfl⟩ := addEdge_ok_iff.1 h
  exact List.map_append

/-- The sides of a triangle among edges given by their ends. -/
def ClosesAmong (edges : List (Nat × Nat)) : Nat × Nat × Nat → Prop
  | (a, b, c) => ∃ x y z, edges[a]? = some x ∧ edges[b]? = some y ∧ edges[c]? = some z ∧
    FormTriangle x y z

theorem isSome_corners?_iff {t : Nat × Nat × Nat} :
    (m.corners? t).isSome ↔ ClosesAmong (m.edges.map Edge.ends) t := by
  obtain ⟨a, b, c⟩ := t
  rw [Option.isSome_iff_exists]
  simp only [Mesh.corners?_eq_some_iff, ClosesAmong, List.getElem?_map, Option.map_eq_some_iff,
    ← isSome_closedTriangle?, Option.isSome_iff_exists]
  constructor
  · rintro ⟨corners, x, y, z, hx, hy, hz, h⟩
    exact ⟨x.ends, y.ends, z.ends, ⟨x, hx, rfl⟩, ⟨y, hy, rfl⟩, ⟨z, hz, rfl⟩, corners, h⟩
  · rintro ⟨_, _, _, ⟨x, hx, rfl⟩, ⟨y, hy, rfl⟩, ⟨z, hz, rfl⟩, corners, h⟩
    exact ⟨corners, x, y, z, hx, hy, hz, h⟩

/-- Triangles can be appended if their sides exist and close up. -/
theorem foldlM_addTriangleRecord_ok_iff {rs : List TriangleRecord} :
    (∃ m', rs.foldlM addTriangleRecord m = .ok m') ↔
      ∀ r ∈ rs, ClosesAmong (m.edges.map Edge.ends) r.triple := by
  let Good (m : Mesh Double) (r : TriangleRecord) : Prop :=
    ClosesAmong (m.edges.map Edge.ends) r.triple
  refine foldlM_ok_iff (P := Good) (fun m r => ?_) ?_
  · show _ ↔ ClosesAmong _ _
    rw [← isSome_corners?_iff, Option.isSome_iff_exists]
    constructor
    · rintro ⟨m', h⟩
      obtain ⟨corners, hc, -⟩ := Mesh.addTriangle_ok_iff.1 h
      exact ⟨corners, hc⟩
    · rintro ⟨corners, hc⟩
      exact ⟨_, Mesh.addTriangle_ok_iff.2 ⟨corners, hc, rfl⟩⟩
  · intro m m' r h r'
    obtain ⟨corners, -, rfl⟩ := Mesh.addTriangle_ok_iff.1 h
    exact Iff.rfl

end

/-! ## The front of a message -/

/-- The header at the front of a message. -/
def headerOf (bytes : Bytes) : MeshHeader := Record.decode (bytes.take (Record.size MeshHeader))

/-- What bytes have to pass before their records are read. -/
def screen (bytes : Bytes) : Except (Fault Double) Unit := do
  let h := headerOf bytes
  if bytes.length < Record.size MeshHeader then .error (.format (.shortMeshHeader bytes.length))
  (h.header.check meshKind).mapError .format
  (expectLength bytes.length (24 + h.vertices.toNat * 32 + h.edges.toNat * 16
    + h.triangles.toNat * 24)).mapError .format
  if h.dimensions.toNat ≠ 2 ∧ h.dimensions.toNat ≠ 3 then
    .error (.format (.meshDimensions h.dimensions.toNat))

/-- The records in a part of a message that is long enough. -/
def recordsAt (ρ : Type) [Record ρ] (bytes : Bytes) (start count : Nat) : List ρ :=
  (List.range count).map fun i => recordAt ρ bytes (start + i * Record.size ρ)

/-- The mesh in the records of a message. -/
def assemble (id : MeshId) (name : String) (bytes : Bytes) :
    Except (Fault Double) (Mesh Double) := do
  let withVertices ← (recordsAt VertexRecord bytes 24 (vertexCount bytes)).foldlM addVertexRecord
    { id, name, dimensions := numberAt bytes 8 4 }
  let withEdges ← (recordsAt EdgeRecord bytes (edgesStart bytes) (edgeCount bytes)).foldlM
    addEdgeRecord withVertices
  (recordsAt TriangleRecord bytes (trianglesStart bytes) (triangleCount bytes)).foldlM
    addTriangleRecord withEdges

theorem toNat_headerOf (bytes : Bytes) :
    (headerOf bytes).dimensions.toNat = numberAt bytes 8 4 ∧
      (headerOf bytes).vertices.toNat = vertexCount bytes ∧
      (headerOf bytes).edges.toNat = edgeCount bytes ∧
      (headerOf bytes).triangles.toNat = triangleCount bytes :=
  ⟨toNat_countAt_take (by decide), toNat_countAt_take (by decide), toNat_countAt_take (by decide),
    toNat_countAt_take (by decide)⟩

theorem check_headerOf_iff {bytes : Bytes} : (headerOf bytes).header.check meshKind = .ok () ↔
    numberAt bytes 0 2 = 1 ∧ numberAt bytes 2 2 = 1 := by
  have front : (bytes.take 24).take 8 = bytes.take 8 := by rw [List.take_take]; rfl
  show (Record.decode ((bytes.take 24).take 8) : Header).check meshKind = .ok () ↔ _
  rw [front, check_front_iff (by decide)]
  rfl

/-- The mesh in the parts of a message that its header announces. -/
def decodeParts (id : MeshId) (name : String) (bytes : Bytes) :
    Except (Fault Double) (Mesh Double) := do
  let h := headerOf bytes
  let verticesEnd := 24 + h.vertices.toNat * 32
  let edgesEnd := verticesEnd + h.edges.toNat * 16
  let vertices ← recordsBetween VertexRecord bytes 24 verticesEnd
  let withVertices ← vertices.foldlM addVertexRecord { id, name, dimensions := h.dimensions.toNat }
  let edges ← recordsBetween EdgeRecord bytes verticesEnd edgesEnd
  let withEdges ← edges.foldlM addEdgeRecord withVertices
  let triangles ←
    recordsBetween TriangleRecord bytes edgesEnd (edgesEnd + h.triangles.toNat * 24)
  triangles.foldlM addTriangleRecord withEdges

variable {bytes : Bytes}

theorem decodeMesh_eq (id : MeshId) (name : String) (bytes : Bytes) :
    decodeMesh id name bytes = screen bytes >>= fun _ => decodeParts id name bytes := by
  unfold decodeMesh screen
  dsimp only
  by_cases hlen : bytes.length < Record.size MeshHeader
  · rw [if_pos hlen, if_pos hlen]
    rfl
  · rw [if_neg hlen, if_neg hlen]
    by_cases hd : (headerOf bytes).dimensions.toNat ≠ 2 ∧ (headerOf bytes).dimensions.toNat ≠ 3
    · rw [if_pos hd]
      unfold headerOf at hd
      rw [if_pos hd]
      simp only [bind_assoc]
      rfl
    · rw [if_neg hd]
      unfold headerOf at hd
      rw [if_neg hd]
      simp only [bind_assoc]
      rfl

theorem screen_ok_iff : screen bytes = .ok () ↔ MeshFront bytes := by
  obtain ⟨hd, hv, he, ht⟩ := toNat_headerOf bytes
  unfold screen
  dsimp only
  rw [hd, hv, he, ht]
  constructor
  · intro h
    by_cases hlen : bytes.length < Record.size MeshHeader
    · rw [if_pos hlen] at h
      cases h
    · rw [if_neg hlen] at h
      obtain ⟨_, hcheck, h⟩ := bind_ok h
      obtain ⟨_, hlength, h⟩ := bind_ok h
      obtain ⟨hversion, hkind⟩ := check_headerOf_iff.1 (mapError_eq_ok.1 hcheck)
      refine ⟨Nat.not_lt.1 hlen, hversion, hkind, ?_,
        expectLength_ok_iff.1 (mapError_eq_ok.1 hlength)⟩
      by_cases hdims : numberAt bytes 8 4 ≠ 2 ∧ numberAt bytes 8 4 ≠ 3
      · rw [if_pos hdims] at h
        cases h
      · omega
  · intro h
    have hlen : ¬ bytes.length < Record.size MeshHeader := Nat.not_lt.2 h.header
    have hdims : ¬ (numberAt bytes 8 4 ≠ 2 ∧ numberAt bytes 8 4 ≠ 3) := by
      have := h.dimensions
      omega
    rw [if_neg hlen, check_headerOf_iff.2 ⟨h.version, h.kind⟩, expectLength, if_pos h.length,
      if_neg hdims]
    rfl


/-! ## The parts of a message -/

theorem recordsBetween_part {ρ : Type} [Record ρ] [FixedSize ρ] {start count : Nat}
    (h : start + count * Record.size ρ ≤ bytes.length) :
    recordsBetween ρ bytes start (start + count * Record.size ρ) =
      .ok (recordsAt ρ bytes start count) := by
  rw [recordsBetween, decodeAll_part h]
  rfl

/-- The parts that the header announces are those at their positions. -/
theorem decodeParts_eq (id : MeshId) (name : String) (h : MeshFront bytes) :
    decodeParts id name bytes = assemble id name bytes := by
  obtain ⟨hd, hv, he, ht⟩ := toNat_headerOf bytes
  have hlen := h.length
  unfold decodeParts assemble
  dsimp only
  rw [hd, hv, he, ht]
  have hvertices : recordsBetween VertexRecord bytes 24 (edgesStart bytes) = _ :=
    recordsBetween_part (by show _ + _ * 32 ≤ _; omega)
  have hedges : recordsBetween EdgeRecord bytes (edgesStart bytes) (trianglesStart bytes) = _ :=
    recordsBetween_part (by show _ + _ * 16 ≤ _; unfold edgesStart; omega)
  have htriangles : recordsBetween TriangleRecord bytes (trianglesStart bytes)
      (trianglesStart bytes + triangleCount bytes * 24) = _ :=
    recordsBetween_part (by show _ + _ * 24 ≤ _; unfold trianglesStart edgesStart; omega)
  rw [← edgesStart, ← trianglesStart, hvertices, hedges, htriangles]
  rfl

/-! ## The mesh of a message -/

theorem length_recordsAt (ρ : Type) [Record ρ] (bytes : Bytes) (start count : Nat) :
    (recordsAt ρ bytes start count).length = count := by
  rw [recordsAt, List.length_map, List.length_range]

theorem forall_mem_recordsAt {ρ : Type} [Record ρ] {P : ρ → Prop} {start count : Nat} :
    (∀ r ∈ recordsAt ρ bytes start count, P r) ↔
      ∀ i < count, P (recordAt ρ bytes (start + i * Record.size ρ)) := by
  simp only [recordsAt, List.forall_mem_map, List.mem_range]

/-- The edges of a mesh that is read up to its edges. -/
theorem map_pair_recordsAt (bytes : Bytes) :
    (recordsAt EdgeRecord bytes (edgesStart bytes) (edgeCount bytes)).map EdgeRecord.pair =
      (List.range (edgeCount bytes)).map (edgeAt bytes) := by
  rw [recordsAt, List.map_map]
  exact List.map_congr_left fun i _ => pair_recordAt bytes _

theorem closesAmong_iff {t : Nat × Nat × Nat} :
    ClosesAmong ((List.range (edgeCount bytes)).map (edgeAt bytes)) t ↔ ClosesIn bytes t := by
  obtain ⟨a, b, c⟩ := t
  have hget {i : Nat} {e : Nat × Nat} :
      ((List.range (edgeCount bytes)).map (edgeAt bytes))[i]? = some e ↔
        i < edgeCount bytes ∧ edgeAt bytes i = e := by
    rw [List.getElem?_map, Option.map_eq_some_iff]
    constructor
    · rintro ⟨j, hj, he⟩
      obtain ⟨hi, rfl⟩ := List.getElem?_eq_some_iff.1 hj
      rw [List.getElem_range] at he
      exact ⟨by simpa using hi, he⟩
    · rintro ⟨hi, he⟩
      exact ⟨i, List.getElem?_range hi, he⟩
  constructor
  · rintro ⟨x, y, z, hx, hy, hz, h⟩
    obtain ⟨ha, rfl⟩ := hget.1 hx
    obtain ⟨hb, rfl⟩ := hget.1 hy
    obtain ⟨hc, rfl⟩ := hget.1 hz
    exact ⟨ha, hb, hc, h⟩
  · rintro ⟨ha, hb, hc, h⟩
    exact ⟨_, _, _, hget.2 ⟨ha, rfl⟩, hget.2 ⟨hb, rfl⟩, hget.2 ⟨hc, rfl⟩, h⟩

/-- The mesh with the vertices of a message and nothing else. -/
theorem exists_vertices (id : MeshId) (name : String) (h : MeshFront bytes) :
    ∃ m, (recordsAt VertexRecord bytes 24 (vertexCount bytes)).foldlM addVertexRecord
        { id, name, dimensions := numberAt bytes 8 4 } = .ok m ∧ m.Consistent ∧
      m.vertices.length = vertexCount bytes ∧ m.edges = [] ∧ m.fields = [] := by
  have hnew : Mesh.new (α := Double) id name (numberAt bytes 8 4) =
      .ok { id, name, dimensions := numberAt bytes 8 4 } := if_pos h.dimensions
  obtain ⟨vs, hvs, hl, hm⟩ := foldlM_addVertexRecord_total
    (recordsAt VertexRecord bytes 24 (vertexCount bytes)) (Mesh.consistent_new hnew)
  refine ⟨_, hvs, hm, ?_, rfl, rfl⟩
  rw [List.nil_append, hl, length_recordsAt]

theorem assemble_ok_iff (id : MeshId) (name : String) (h : MeshFront bytes) :
    (∃ m, assemble id name bytes = .ok m) ↔ MeshFormat bytes := by
  obtain ⟨m₁, hm₁, -, hcount, hnone, -⟩ := exists_vertices id name h
  have hassemble : assemble id name bytes = (do
      let withEdges ← (recordsAt EdgeRecord bytes (edgesStart bytes) (edgeCount bytes)).foldlM
        addEdgeRecord m₁
      (recordsAt TriangleRecord bytes (trianglesStart bytes) (triangleCount bytes)).foldlM
        addTriangleRecord withEdges) := by
    rw [assemble, hm₁]
    rfl
  have hedges : (∃ m₂, (recordsAt EdgeRecord bytes (edgesStart bytes) (edgeCount bytes)).foldlM
      addEdgeRecord m₁ = .ok m₂) ↔ ∀ i < edgeCount bytes,
        (edgeAt bytes i).1 < vertexCount bytes ∧ (edgeAt bytes i).2 < vertexCount bytes := by
    rw [foldlM_addEdgeRecord_ok_iff, forall_mem_recordsAt, hcount]
    refine forall₂_congr fun i _ => ?_
    rw [edgeAt, ← pair_recordAt]
    rfl
  have htriangles {m₂ : Mesh Double} (hm₂ : (recordsAt EdgeRecord bytes (edgesStart bytes)
      (edgeCount bytes)).foldlM addEdgeRecord m₁ = .ok m₂) :
      (∃ m₃, (recordsAt TriangleRecord bytes (trianglesStart bytes) (triangleCount bytes)).foldlM
        addTriangleRecord m₂ = .ok m₃) ↔
        ∀ i < triangleCount bytes, ClosesIn bytes (triangleAt bytes i) := by
    rw [foldlM_addTriangleRecord_ok_iff, ends_foldlM_addEdgeRecord hm₂, hnone, List.map_nil,
      List.nil_append, map_pair_recordsAt, forall_mem_recordsAt]
    refine forall₂_congr fun i _ => ?_
    rw [triangleAt, ← triple_recordAt, ← closesAmong_iff]
    rfl
  rw [hassemble]
  constructor
  · rintro ⟨m₃, hm₃⟩
    obtain ⟨m₂, hm₂, hm₃⟩ := bind_ok hm₃
    exact { h with edges := hedges.1 ⟨m₂, hm₂⟩, triangles := (htriangles hm₂).1 ⟨m₃, hm₃⟩ }
  · intro hf
    obtain ⟨m₂, hm₂⟩ := hedges.2 hf.edges
    rw [hm₂]
    exact (htriangles hm₂).2 hf.triangles

theorem validate_of_assemble {id : MeshId} {name : String} (h : MeshFront bytes) {m : Mesh Double}
    (hm : assemble id name bytes = .ok m) : m.validate = .ok () := by
  obtain ⟨m₁, hm₁, hc, -, -, hf⟩ := exists_vertices id name h
  obtain ⟨_, hm₁', hm⟩ := bind_ok hm
  obtain rfl := Except.ok.inj (hm₁.symm.trans hm₁')
  obtain ⟨m₂, hm₂, hm⟩ := bind_ok hm
  let InOrder (m : Mesh Double) : Prop := m.Consistent ∧ m.fields = []
  obtain ⟨hc, hf⟩ : InOrder m := by
    refine foldlM_keeps (fun h hm => ?_) hm (foldlM_keeps (fun h hm => ?_) hm₂ ⟨hc, hf⟩)
    · obtain ⟨corners, hc, rfl⟩ := Mesh.addTriangle_ok_iff.1 h
      exact ⟨hm.1.change (.triangle _ corners hc), hm.2⟩
    · obtain ⟨hends, rfl⟩ := addEdge_ok_iff.1 h
      exact ⟨hm.1.change (.edge _ _ hends.1 hends.2), hm.2⟩
  exact hc.validate (by rw [hf]; exact fun f hf => absurd hf List.not_mem_nil)

/-- Bytes are read exactly if they are a mesh message. -/
theorem decodeMesh_ok_iff (id : MeshId) (name : String) :
    (∃ m, decodeMesh id name bytes = .ok m) ↔ MeshFormat bytes := by
  rw [decodeMesh_eq]
  constructor
  · rintro ⟨m, hm⟩
    obtain ⟨_, hscreen, hm⟩ := bind_ok hm
    have front := screen_ok_iff.1 hscreen
    rw [decodeParts_eq id name front] at hm
    exact (assemble_ok_iff id name front).1 ⟨m, hm⟩
  · intro h
    rw [screen_ok_iff.2 h.toMeshFront]
    show ∃ m, decodeParts id name bytes = .ok m
    rw [decodeParts_eq id name h.toMeshFront]
    exact (assemble_ok_iff id name h.toMeshFront).2 h

/-- A mesh that was read passes its check. -/
theorem validate_of_decodeMesh {id : MeshId} {name : String} {m : Mesh Double}
    (h : decodeMesh id name bytes = .ok m) : m.validate = .ok () := by
  rw [decodeMesh_eq] at h
  obtain ⟨_, hscreen, h⟩ := bind_ok h
  have front := screen_ok_iff.1 hscreen
  rw [decodeParts_eq id name front] at h
  exact validate_of_assemble front h

end Cosimulation.Exchange

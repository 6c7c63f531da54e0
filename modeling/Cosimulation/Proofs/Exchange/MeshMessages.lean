import Cosimulation.Exchange.Geometry
import Cosimulation.Proofs.Mesh.Operations
import Cosimulation.Proofs.Wire.Records

/-!
# A mesh arrives as it was sent

The receiver of a mesh finds the three lists of records where the counts in the header put them
(`recordsBetween_eq`), and appends one entity after the other to an empty mesh. It never has to
refuse one: the sender's mesh has its bookkeeping in order, and what a record refers to is there
before the record is read (`foldlM_addVertexRecord`, `foldlM_addEdgeRecord`,
`foldlM_addTriangleRecord`).

`Mesh.delivered` is what arrives: everything but the marks, the data fields and the one global index
that stands for none (`decodeMesh_encodeMesh`, `receiveMesh_sendMesh`).
-/

namespace Cosimulation

open Wire

/-- A vertex at its receiver. -/
def Vertex.delivered (v : Vertex Double) : Vertex Double :=
  { v with globalIndex := v.globalIndex.filter (· ≠ noIndex), tagged := false }

/-- A mesh at its receiver, which gives it an ID and a name of its own. -/
def Mesh.delivered (id : MeshId) (name : String) (m : Mesh Double) : Mesh Double :=
  { m with id, name, vertices := m.vertices.map Vertex.delivered, fields := [] }

namespace Exchange

/-! ## Parts of a message -/

/-- The records that stand between two parts of a message. -/
theorem recordsBetween_eq {ρ : Type} [Record ρ] [FixedSize ρ] {bytes before behind : Bytes}
    {rs : List ρ} {start stop : Nat} (hbytes : bytes = before ++ (encodeAll rs ++ behind))
    (hstart : start = before.length) (hstop : stop = start + rs.length * Record.size ρ) :
    recordsBetween ρ bytes start stop =
      .ok (rs.map fun r => Record.decode (Record.encode r)) := by
  have hpart : (bytes.take stop).drop start = encodeAll rs := by
    rw [List.drop_take, hbytes, hstart, List.drop_left, hstop, hstart, Nat.add_sub_cancel_left,
      List.take_left' (length_encodeAll rs)]
  rw [recordsBetween, hpart, decodeAll_encodeAll]
  rfl

/-! ## Rebuilding a mesh -/

/-- A list is rebuilt from records when each record, read after those before it, appends its
entry. -/
theorem foldlM_grows {β ρ σ ε : Type} (grow : List β → σ) (record : β → ρ)
    (add : σ → ρ → Except ε σ) {bs : List β}
    (hadd : ∀ xs b ys, bs = xs ++ b :: ys → add (grow xs) (record b) = .ok (grow (xs ++ [b]))) :
    (bs.map record).foldlM add (grow []) = .ok (grow bs) := by
  suffices rest : ∀ ys xs, bs = xs ++ ys →
      (ys.map record).foldlM add (grow xs) = .ok (grow bs) from rest bs [] rfl
  intro ys
  induction ys with
  | nil =>
    intro xs h
    rw [h, List.append_nil]
    rfl
  | cons y ys ih =>
    intro xs h
    rw [List.map_cons, List.foldlM_cons, hadd xs y ys h]
    exact ih (xs ++ [y]) (by rw [h, List.append_cons])

/-- An entry of a numbered list carries the number of those before it. -/
theorem id_eq_length {β : Type} {id : β → Nat} {bs xs ys : List β} {b : β}
    (hids : bs.map id = List.range bs.length) (h : bs = xs ++ b :: ys) : id b = xs.length := by
  have hb : (bs.map id)[xs.length]? = some (id b) := by rw [h]; simp
  rw [hids, List.getElem?_range (by rw [h]; simp)] at hb
  exact (Option.some.inj hb).symm

theorem modify_concat {β : Type} (f : β → β) (b : β) (bs : List β) :
    (bs ++ [b]).modify bs.length f = bs ++ [f b] := by
  induction bs with
  | nil => rfl
  | cons c bs ih => exact congrArg (c :: ·) ih

/-- As many coordinates as a mesh has dimensions name the position they are taken from. -/
theorem position?_take {dimensions : Nat} {p : Point Double}
    (hd : dimensions = 2 ∨ dimensions = 3) (flat : dimensions = 2 → p.z = 0) :
    Mesh.position? dimensions (p.toList.take dimensions) = some p := by
  obtain ⟨x, y, z⟩ := p
  rcases hd with rfl | rfl
  · rw [show z = 0 from flat rfl]
    rfl
  · rfl

theorem addVertexRecord_eq {m : Mesh Double} {p : Point Double} (g : Option UInt64)
    (hd : m.dimensions = 2 ∨ m.dimensions = 3) (flat : m.dimensions = 2 → p.z = 0) :
    addVertexRecord m ⟨p, g⟩ =
      .ok { m with vertices := m.vertices ++ [⟨m.vertices.length, p, g, false⟩] } := by
  rw [addVertexRecord, Mesh.addVertex, position?_take hd flat]
  cases g with
  | none => rfl
  | some g =>
    show Except.ok { m with vertices := List.modify (_ ++ [_]) _ _ } = _
    rw [modify_concat]

/-- A vertex as the receiver reads it. -/
def readVertex (v : Vertex Double) : VertexRecord :=
  ⟨v.position, v.globalIndex.filter (· ≠ noIndex)⟩

variable {m : Mesh Double}

theorem foldlM_addVertexRecord (h : m.Consistent) (id : MeshId) (name : String) :
    (m.vertices.map readVertex).foldlM addVertexRecord { id, name, dimensions := m.dimensions } =
      .ok { id, name, dimensions := m.dimensions
            vertices := m.vertices.map Vertex.delivered } := by
  let grow (vs : List (Vertex Double)) : Mesh Double :=
    { id, name, dimensions := m.dimensions, vertices := vs.map Vertex.delivered }
  refine foldlM_grows grow readVertex addVertexRecord fun xs v ys hv => ?_
  have hid : v.id = xs.length := id_eq_length h.vertexIds hv
  have flat (hd : m.dimensions = 2) : v.position.z = 0 := h.flat hd v (by simp [hv])
  rw [readVertex, addVertexRecord_eq (m := grow xs) _ h.dimensions flat]
  simp [grow, Vertex.delivered, hid]

theorem foldlM_addEdgeRecord (h : m.Consistent) (hcount : m.vertices.length < UInt64.size)
    {m' : Mesh Double} (hvertices : m'.vertices.length = m.vertices.length)
    (hedges : m'.edges = []) :
    (m.edges.map edgeRecord).foldlM addEdgeRecord m' = .ok { m' with edges := m.edges } := by
  let grow (es : List Edge) : Mesh Double := { m' with edges := es }
  have hnil : m' = grow [] := by simp only [grow, ← hedges]
  rw [hnil]
  refine foldlM_grows grow edgeRecord addEdgeRecord fun xs e ys he => ?_
  have hid : e.id = xs.length := id_eq_length h.edgeIds he
  obtain ⟨ha, hb⟩ := h.ends e (by simp [he])
  have hword {n : Nat} (hn : n < m.vertices.length) : (UInt64.ofNat n).toNat = n :=
    UInt64.toNat_ofNat_of_lt' (Nat.lt_trans hn hcount)
  rw [addEdgeRecord, edgeRecord, hword ha, hword hb, Mesh.addEdge]
  simp only [grow, hvertices]
  rw [if_neg (by omega), if_neg (by omega), ← hid]

theorem foldlM_addTriangleRecord (h : m.Consistent) (hcount : m.edges.length < UInt64.size)
    {m' : Mesh Double} (hedges : m'.edges = m.edges) (htriangles : m'.triangles = []) :
    (m.triangles.map triangleRecord).foldlM addTriangleRecord m' =
      .ok { m' with triangles := m.triangles } := by
  let grow (ts : List Triangle) : Mesh Double := { m' with triangles := ts }
  have hnil : m' = grow [] := by simp only [grow, ← htriangles]
  rw [hnil]
  refine foldlM_grows grow triangleRecord addTriangleRecord fun xs t ys ht => ?_
  have hid : t.id = xs.length := id_eq_length h.triangleIds ht
  have hcorners := h.corners t (by simp [ht])
  have hword {i : Nat} {e : Edge} (he : m.edges[i]? = some e) : (UInt64.ofNat i).toNat = i :=
    UInt64.toNat_ofNat_of_lt' (Nat.lt_trans (List.getElem?_eq_some_iff.1 he).1 hcount)
  obtain ⟨x, y, z, hx, hy, hz, _⟩ := Mesh.corners?_eq_some_iff.1 hcorners
  have hsame : (grow xs).edges = m.edges ++ [] := by rw [List.append_nil]; exact hedges
  have hgrown : (grow xs).corners? t.edges = some t.corners := Mesh.corners?_append hsame hcorners
  rw [addTriangleRecord, triangleRecord, hword hx, hword hy, hword hz, Mesh.addTriangle, hgrown]
  simp only [grow]
  rw [← hid]

/-! ## The whole message -/

/-- Where the vertices of a message end and its edges begin. -/
def verticesEnd (m : Mesh Double) : Nat :=
  Record.size MeshHeader + m.vertices.length * Record.size VertexRecord

/-- Where the edges of a message end and its triangles begin. -/
def edgesEnd (m : Mesh Double) : Nat :=
  verticesEnd m + m.edges.length * Record.size EdgeRecord

/-- Where a message ends. -/
def messageEnd (m : Mesh Double) : Nat :=
  edgesEnd m + m.triangles.length * Record.size TriangleRecord

theorem length_encode_meshHeader (m : Mesh Double) :
    (Record.encode (meshHeader m)).length = Record.size MeshHeader :=
  FixedSize.length_encode _

theorem length_encodeMesh (m : Mesh Double) : (encodeMesh m).length = messageEnd m := by
  simp only [encodeMesh, List.length_append, length_encodeAll, List.length_map,
    length_encode_meshHeader, messageEnd, edgesEnd, verticesEnd]

theorem header_encodeMesh (m : Mesh Double) :
    Record.decode ((encodeMesh m).take (Record.size MeshHeader)) = meshHeader m := by
  rw [encodeMesh, List.append_assoc, List.append_assoc,
    List.take_left' (length_encode_meshHeader m), decode_encode_meshHeader]

theorem vertices_encodeMesh (m : Mesh Double) :
    recordsBetween VertexRecord (encodeMesh m) (Record.size MeshHeader) (verticesEnd m) =
      .ok (m.vertices.map readVertex) := by
  have hbytes : encodeMesh m = Record.encode (meshHeader m) ++
      (encodeAll (m.vertices.map vertexRecord) ++ (encodeAll (m.edges.map edgeRecord) ++
        encodeAll (m.triangles.map triangleRecord))) := by
    simp only [encodeMesh, List.append_assoc]
  have hstop : verticesEnd m = Record.size MeshHeader +
      (m.vertices.map vertexRecord).length * Record.size VertexRecord := by
    rw [List.length_map, verticesEnd]
  rw [recordsBetween_eq hbytes (length_encode_meshHeader m).symm hstop, List.map_map]
  exact congrArg _ (List.map_congr_left fun v _ => decode_encode_vertex (vertexRecord v))

theorem edges_encodeMesh (m : Mesh Double) :
    recordsBetween EdgeRecord (encodeMesh m) (verticesEnd m) (edgesEnd m) =
      .ok (m.edges.map edgeRecord) := by
  have hbytes : encodeMesh m =
      (Record.encode (meshHeader m) ++ encodeAll (m.vertices.map vertexRecord)) ++
        (encodeAll (m.edges.map edgeRecord) ++ encodeAll (m.triangles.map triangleRecord)) := by
    simp only [encodeMesh, List.append_assoc]
  have hstart : verticesEnd m =
      (Record.encode (meshHeader m) ++ encodeAll (m.vertices.map vertexRecord)).length := by
    rw [List.length_append, length_encode_meshHeader, length_encodeAll, List.length_map,
      verticesEnd]
  have hstop : edgesEnd m =
      verticesEnd m + (m.edges.map edgeRecord).length * Record.size EdgeRecord := by
    rw [List.length_map, edgesEnd]
  rw [recordsBetween_eq hbytes hstart hstop, List.map_map]
  exact congrArg _ (List.map_congr_left fun e _ => decode_encode_edge (edgeRecord e))

theorem triangles_encodeMesh (m : Mesh Double) :
    recordsBetween TriangleRecord (encodeMesh m) (edgesEnd m) (messageEnd m) =
      .ok (m.triangles.map triangleRecord) := by
  have hbytes : encodeMesh m =
      (Record.encode (meshHeader m) ++ encodeAll (m.vertices.map vertexRecord) ++
        encodeAll (m.edges.map edgeRecord)) ++
          (encodeAll (m.triangles.map triangleRecord) ++ []) := by
    rw [encodeMesh, List.append_nil]
  have hstart : edgesEnd m =
      (Record.encode (meshHeader m) ++ encodeAll (m.vertices.map vertexRecord) ++
        encodeAll (m.edges.map edgeRecord)).length := by
    simp only [List.length_append, length_encode_meshHeader, length_encodeAll, List.length_map,
      edgesEnd, verticesEnd]
  have hstop : messageEnd m =
      edgesEnd m + (m.triangles.map triangleRecord).length * Record.size TriangleRecord := by
    rw [List.length_map, messageEnd]
  rw [recordsBetween_eq hbytes hstart hstop, List.map_map]
  exact congrArg _ (List.map_congr_left fun t _ => decode_encode_triangle (triangleRecord t))

/-- What is sent of a mesh is read back from its message. -/
theorem decodeMesh_encodeMesh (h : m.Consistent) (hv : m.vertices.length < UInt32.size)
    (he : m.edges.length < UInt32.size) (ht : m.triangles.length < UInt32.size) (id : MeshId)
    (name : String) : decodeMesh id name (encodeMesh m) = .ok (m.delivered id name) := by
  have hlong : ¬ (encodeMesh m).length < Record.size MeshHeader := by
    rw [length_encodeMesh, messageEnd, edgesEnd, verticesEnd]
    omega
  have hd : (meshHeader m).dimensions.toNat = m.dimensions := by
    rcases h.dimensions with hd | hd <;> simp [meshHeader, hd]
  have hd' : ¬ (m.dimensions ≠ 2 ∧ m.dimensions ≠ 3) := by
    have := h.dimensions
    omega
  have hnv : (meshHeader m).vertices.toNat = m.vertices.length := UInt32.toNat_ofNat_of_lt' hv
  have hne : (meshHeader m).edges.toNat = m.edges.length := UInt32.toNat_ofNat_of_lt' he
  have hnt : (meshHeader m).triangles.toNat = m.triangles.length := UInt32.toNat_ofNat_of_lt' ht
  have hcheck : (meshHeader m).header.check meshKind = .ok () := rfl
  have hlength : expectLength (encodeMesh m).length (messageEnd m) = .ok () :=
    if_pos (length_encodeMesh m)
  unfold decodeMesh
  simp only [header_encodeMesh, hnv, hne, hnt, hd, if_neg hlong, if_neg hd', hcheck]
  rw [← verticesEnd, ← edgesEnd, ← messageEnd, hlength, vertices_encodeMesh, edges_encodeMesh,
    triangles_encodeMesh]
  show (do
    let withVertices ← List.foldlM addVertexRecord _ (m.vertices.map readVertex)
    let withEdges ← List.foldlM addEdgeRecord withVertices (m.edges.map edgeRecord)
    List.foldlM addTriangleRecord withEdges (m.triangles.map triangleRecord)) = _
  rw [foldlM_addVertexRecord h]
  show (do
    let withEdges ← List.foldlM addEdgeRecord _ (m.edges.map edgeRecord)
    List.foldlM addTriangleRecord withEdges (m.triangles.map triangleRecord)) = _
  rw [foldlM_addEdgeRecord h (Nat.lt_trans hv (by decide)) (List.length_map _) rfl]
  exact foldlM_addTriangleRecord h (Nat.lt_trans he (by decide)) rfl rfl

/-! ## On the way -/

/-- A message put into a mailbox that holds none of its key is the next one taken. -/
theorem take_put {box : Mailbox} {key : Key} (hq : box.queue key = []) (bytes : Bytes) :
    (box.put key bytes).take key = (some bytes, box) := by
  have hnone : ∀ e ∈ box.messages, ¬ decide (e.1 = key) = true := by
    intro e he
    have hfilter := List.map_eq_nil_iff.1 hq
    exact (List.filter_eq_nil_iff.1 hfilter) e he
  unfold Mailbox.take
  rw [Mailbox.queue_put, hq, if_pos rfl]
  simp only [List.nil_append, Mailbox.put]
  rw [List.eraseP_append_right _ hnone, List.eraseP_cons_of_pos (by simp), List.append_nil]

/-- A mesh that any operations have built, sent to another process, arrives under the ID and name
that the receiver gives it. -/
theorem receiveMesh_sendMesh {id₀ : MeshId} {name₀ : String} {dimensions : Nat}
    {blank : Mesh Double} (hnew : Mesh.new id₀ name₀ dimensions = .ok blank)
    (ops : List (Mesh.Operation Double)) (hv : (blank.run ops).vertices.length < UInt32.size)
    (he : (blank.run ops).edges.length < UInt32.size)
    (ht : (blank.run ops).triangles.length < UInt32.size)
    (sender receiver : Rank) (size : Nat) (tag : Tag) (id : MeshId) (name : String) {box : Mailbox}
    (hq : box.queue ⟨sender, receiver, tag⟩ = []) :
    receiveMesh (.member receiver size) sender tag id name
        (sendMesh (.member sender size) receiver tag (blank.run ops) box) =
      (.ok ((blank.run ops).delivered id name), box) := by
  have hdecode := decodeMesh_encodeMesh (Mesh.consistent_run hnew ops) hv he ht id name
  unfold receiveMesh Endpoint.receiveWith Endpoint.collect sendMesh Endpoint.post
  simp only [take_put hq]
  exact congrArg (·, box) hdecode

/-- A triangle at a NaN with payload, at a negative zero and at the origin. Two of its corners have
global indices, one of them the largest there is; the last operation fails. -/
def markedTriangle : List (Mesh.Operation Double) :=
  [.addVertex [⟨0x7FF8000000000BAD⟩, ⟨0⟩, ⟨0⟩], .addVertex [⟨0⟩, ⟨0x8000000000000000⟩, ⟨0⟩],
    .addVertex [⟨0⟩, ⟨0⟩, ⟨0⟩], .addEdge 0 1, .addEdge 1 2, .addEdge 2 0, .addTriangle (0, 1, 2),
    .setGlobalIndex 0 17, .setGlobalIndex 1 0xFFFFFFFFFFFFFFFF, .tag 2, .addField 1 "load" 1,
    .addEdge 2 3]

theorem receiveMesh_markedTriangle :
    receiveMesh (.member 1 2) 0 7 4 "there"
        (sendMesh (.member 0 2) 1 7 (({ id := 3, name := "here", dimensions := 3 } :
          Mesh Double).run markedTriangle) {}) =
      (.ok
        { id := 4
          name := "there"
          dimensions := 3
          vertices :=
            [⟨0, ⟨⟨0x7FF8000000000BAD⟩, ⟨0⟩, ⟨0⟩⟩, some 17, false⟩,
              ⟨1, ⟨⟨0⟩, ⟨0x8000000000000000⟩, ⟨0⟩⟩, none, false⟩,
              ⟨2, ⟨⟨0⟩, ⟨0⟩, ⟨0⟩⟩, none, false⟩]
          edges := [⟨0, (0, 1)⟩, ⟨1, (1, 2)⟩, ⟨2, (2, 0)⟩]
          triangles := [⟨0, (0, 1, 2), (0, 1, 2)⟩] }, {}) :=
  (receiveMesh_sendMesh (rfl : Mesh.new 3 "here" 3 = .ok _) markedTriangle (by decide) (by decide)
    (by decide) 0 1 2 7 4 "there" rfl).trans rfl

end Exchange

end Cosimulation

import Cosimulation.Proofs.Exchange.MeshFormat

/-!
# Receiving bytes that nobody vouches for

The receiver of a mesh cuts the message at positions that it computes from counts it has no reason
to trust, and places what it reads by numbers from the message. `decodeGuarded` is the same reading
with every cut, every size and every place checked on the spot; a check that fails is a violation.
It gives the same answers as the reading without these checks (`decodeGuarded_eq`), so none of them
ever fails.

Together with the format this says what receiving a mesh does with any bytes
(`receiveMesh_accepts`).
-/

namespace Cosimulation.Exchange

open Wire

variable {bytes : Bytes}

/-! ## Reading with every step checked -/

/-- The bytes between two positions, which have to be in order and in the message. -/
def cut (bytes : Bytes) (start stop : Nat) : Except (Failure Double) Bytes :=
  if start ≤ stop ∧ stop ≤ bytes.length then .ok ((bytes.take stop).drop start)
  else .error (.violation .bounds)

/-- A position, which has to be one that can be counted. -/
def counted (position : Nat) : Except (Failure Double) Nat :=
  if position < UInt64.size then .ok position else .error (.violation .bounds)

/-- An answer about a format. -/
def answer (cause : FormatFault) : Failure Double := .fault (.format cause)

/-- Appends the vertex of a record; its coordinates and its place have to be there. -/
def addVertexGuarded (m : Mesh Double) (r : VertexRecord) :
    Except (Failure Double) (Mesh Double) := do
  if r.position.toList.length < m.dimensions then .error (.violation .bounds)
  let m' ← (m.addVertex (r.position.toList.take m.dimensions)).mapError .fault
  match r.globalIndex with
  | none => .ok m'
  | some g => (m'.setGlobalIndex m.vertices.length g).mapError .violation

/-- The header of a message that passes, with every step checked. -/
def screenGuarded (bytes : Bytes) : Except (Failure Double) MeshHeader := do
  let head := Record.size MeshHeader
  if bytes.length < head then .error (answer (.shortMeshHeader bytes.length))
  let h : MeshHeader := Record.decode (← cut bytes 0 head)
  (h.header.check meshKind).mapError answer
  let verticesEnd ← counted (head + h.vertices.toNat * Record.size VertexRecord)
  let edgesEnd ← counted (verticesEnd + h.edges.toNat * Record.size EdgeRecord)
  let stop ← counted (edgesEnd + h.triangles.toNat * Record.size TriangleRecord)
  (expectLength bytes.length stop).mapError answer
  let dimensions := h.dimensions.toNat
  if dimensions ≠ 2 ∧ dimensions ≠ 3 then .error (answer (.meshDimensions dimensions))
  return h

/-- The records in a part of a message, which has to be there. -/
def recordsGuarded (ρ : Type) [Record ρ] (bytes : Bytes) (start stop : Nat) :
    Except (Failure Double) (List ρ) := do
  (decodeAll ρ (← cut bytes start stop)).mapError answer

/-- The mesh in the parts of a message that a header announces, read with every step checked. -/
def partsGuarded (id : MeshId) (name : String) (bytes : Bytes) (h : MeshHeader) :
    Except (Failure Double) (Mesh Double) := do
  let verticesEnd := Record.size MeshHeader + h.vertices.toNat * Record.size VertexRecord
  let edgesEnd := verticesEnd + h.edges.toNat * Record.size EdgeRecord
  let blank ← (Mesh.new id name h.dimensions.toNat).mapError .violation
  let vertices ← recordsGuarded VertexRecord bytes (Record.size MeshHeader) verticesEnd
  let withVertices ← vertices.foldlM addVertexGuarded blank
  let edges ← recordsGuarded EdgeRecord bytes verticesEnd edgesEnd
  let withEdges ← edges.foldlM (fun m r => (addEdgeRecord m r).mapError .fault) withVertices
  let triangles ← recordsGuarded TriangleRecord bytes edgesEnd bytes.length
  triangles.foldlM (fun m r => (addTriangleRecord m r).mapError .fault) withEdges

/-- The mesh that a message describes, read with every step checked. -/
def decodeGuarded (id : MeshId) (name : String) (bytes : Bytes) :
    Except (Failure Double) (Mesh Double) :=
  screenGuarded bytes >>= partsGuarded id name bytes

theorem counted_eq {n : Nat} (h : n < 2 ^ 64) : counted n = .ok n := if_pos h

theorem cut_eq {start stop : Nat} (h : start ≤ stop ∧ stop ≤ bytes.length) :
    cut bytes start stop = .ok ((bytes.take stop).drop start) := if_pos h

/-- Taking in records with a wider way of failing. -/
theorem foldlM_mapError {σ ρ ε ε' : Type} {P : σ → Prop} {add : σ → ρ → Except ε σ}
    {add' : σ → ρ → Except ε' σ} {f : ε → ε'}
    (hadd : ∀ {s}, P s → ∀ r, add' s r = (add s r).mapError f)
    (hkeep : ∀ {s s' r}, add s r = .ok s' → P s → P s') {rs : List ρ} :
    ∀ {s : σ}, P s → rs.foldlM add' s = (rs.foldlM add s).mapError f := by
  induction rs with
  | nil => exact fun _ => rfl
  | cons r rs ih =>
    intro s hs
    rw [List.foldlM_cons, List.foldlM_cons, hadd hs r]
    cases h : add s r with
    | error e => rfl
    | ok s' => exact ih (hkeep h hs)

theorem addVertexGuarded_eq {m : Mesh Double} (h : m.Consistent) (r : VertexRecord) :
    addVertexGuarded m r = (addVertexRecord m r).mapError .fault := by
  have hdims : ¬ r.position.toList.length < m.dimensions := by
    have := h.dimensions
    simp only [Point.toList, List.length_cons, List.length_nil]
    omega
  unfold addVertexGuarded addVertexRecord
  rw [if_neg hdims]
  cases hadd : m.addVertex (r.position.toList.take m.dimensions) with
  | error fault => rfl
  | ok m' =>
    cases r.globalIndex with
    | none => rfl
    | some g =>
      have hplace : m.vertices.length < m'.vertices.length := by
        unfold Mesh.addVertex at hadd
        split at hadd
        next => cases hadd
        next => cases hadd; simp
      show Except.mapError _ (m'.modifyVertex _ _) = _
      rw [Mesh.modifyVertex, if_pos hplace]
      rfl

/-- The positions that a header announces can be counted. -/
theorem screenGuarded_eq (bytes : Bytes) :
    screenGuarded bytes = ((screen bytes).mapError .fault).map fun _ => headerOf bytes := by
  have hv := (headerOf bytes).vertices.toNat_lt
  have he := (headerOf bytes).edges.toNat_lt
  have ht := (headerOf bytes).triangles.toNat_lt
  unfold screenGuarded screen
  dsimp only
  by_cases hlen : bytes.length < Record.size MeshHeader
  · rw [if_pos hlen, if_pos hlen]
    rfl
  rw [if_neg hlen, if_neg hlen, cut_eq ⟨Nat.zero_le _, Nat.not_lt.1 hlen⟩, List.drop_zero]
  show (do
    ((headerOf bytes).header.check meshKind).mapError answer
    let verticesEnd ← counted (24 + (headerOf bytes).vertices.toNat * 32)
    let edgesEnd ← counted (verticesEnd + (headerOf bytes).edges.toNat * 16)
    let stop ← counted (edgesEnd + (headerOf bytes).triangles.toNat * 24)
    (expectLength bytes.length stop).mapError answer
    if (headerOf bytes).dimensions.toNat ≠ 2 ∧ (headerOf bytes).dimensions.toNat ≠ 3 then
      .error (answer (.meshDimensions (headerOf bytes).dimensions.toNat))
    return headerOf bytes) = _
  generalize headerOf bytes = h at hv he ht
  cases h.header.check meshKind with
  | error cause => rfl
  | ok u =>
    have hv' : 24 + h.vertices.toNat * 32 < 2 ^ 64 := by omega
    have he' : 24 + h.vertices.toNat * 32 + h.edges.toNat * 16 < 2 ^ 64 := by omega
    have ht' : 24 + h.vertices.toNat * 32 + h.edges.toNat * 16 + h.triangles.toNat * 24 <
      2 ^ 64 := by omega
    simp only [mapError_ok, ok_bind, counted_eq hv', counted_eq he', counted_eq ht']
    cases expectLength bytes.length
      (24 + h.vertices.toNat * 32 + h.edges.toNat * 16 + h.triangles.toNat * 24) with
    | error cause => rfl
    | ok u =>
      simp only [mapError_ok, ok_bind]
      by_cases hd : h.dimensions.toNat ≠ 2 ∧ h.dimensions.toNat ≠ 3
      · rw [if_pos hd, if_pos hd]
        rfl
      · rw [if_neg hd, if_neg hd]
        rfl

theorem recordsGuarded_part {ρ : Type} [Record ρ] [FixedSize ρ] {start count : Nat}
    (h : start + count * Record.size ρ ≤ bytes.length) :
    recordsGuarded ρ bytes start (start + count * Record.size ρ) =
      .ok (recordsAt ρ bytes start count) := by
  rw [recordsGuarded, cut_eq ⟨Nat.le_add_right _ _, h⟩]
  show (decodeAll ρ _).mapError answer = _
  rw [decodeAll_part h]
  rfl

theorem mapError_bind {ε ε' β γ : Type} (g : ε → ε') (x : Except ε β) (f : β → Except ε γ) :
    (x >>= f).mapError g = x.mapError g >>= fun b => (f b).mapError g := by
  cases x <;> rfl

theorem partsGuarded_eq (id : MeshId) (name : String) (h : MeshFront bytes) :
    partsGuarded id name bytes (headerOf bytes) = (assemble id name bytes).mapError .fault := by
  obtain ⟨hd, hv, he, ht⟩ := toNat_headerOf bytes
  have hlen := h.length
  have hnew : Mesh.new (α := Double) id name (numberAt bytes 8 4) =
      .ok { id, name, dimensions := numberAt bytes 8 4 } := if_pos h.dimensions
  have hvertices : recordsGuarded VertexRecord bytes 24 (edgesStart bytes) = _ :=
    recordsGuarded_part (by show _ + _ * 32 ≤ _; omega)
  have hedges : recordsGuarded EdgeRecord bytes (edgesStart bytes) (trianglesStart bytes) = _ :=
    recordsGuarded_part (by show _ + _ * 16 ≤ _; unfold edgesStart; omega)
  have hend : bytes.length = trianglesStart bytes + triangleCount bytes * 24 := hlen
  have htriangles : recordsGuarded TriangleRecord bytes (trianglesStart bytes) bytes.length =
      .ok (recordsAt TriangleRecord bytes (trianglesStart bytes) (triangleCount bytes)) := by
    rw [hend]
    exact recordsGuarded_part (Nat.le_of_eq hend.symm)
  unfold partsGuarded assemble
  dsimp only
  have hkeep {m m' : Mesh Double} {r : VertexRecord} (hadd : addVertexRecord m r = .ok m')
      (hm : m.Consistent) : m'.Consistent := by
    obtain ⟨v, hv, hm'⟩ := addVertexRecord_total hm r
    obtain rfl := Except.ok.inj (hv.symm.trans hadd)
    exact hm'
  have hsizes : Record.size MeshHeader = 24 ∧ Record.size VertexRecord = 32 ∧
    Record.size EdgeRecord = 16 := ⟨rfl, rfl, rfl⟩
  have hblank : (Mesh.new id name (numberAt bytes 8 4)).mapError Failure.violation =
      .ok { id, name, dimensions := numberAt bytes 8 4 } := congrArg (Except.mapError _) hnew
  have hguarded : (recordsAt VertexRecord bytes 24 (vertexCount bytes)).foldlM addVertexGuarded
      { id, name, dimensions := numberAt bytes 8 4 } = _ :=
    foldlM_mapError (fun h r => addVertexGuarded_eq h r) hkeep (Mesh.consistent_new hnew)
  rw [hd, hv, he, hsizes.1, hsizes.2.1, hsizes.2.2, ← edgesStart, ← trianglesStart,
    hblank, ok_bind, hvertices, ok_bind, hedges, htriangles, hguarded, mapError_bind]
  refine bind_congr fun withVertices => ?_
  have same {ρ : Type} {add : Mesh Double → ρ → Except (Fault Double) (Mesh Double)} (rs : List ρ)
      (m : Mesh Double) :
      rs.foldlM (fun m r => (add m r).mapError .fault) m =
        (rs.foldlM add m).mapError Failure.fault :=
    foldlM_mapError (P := fun _ => True) (fun _ _ => rfl) (fun _ h => h) trivial
  rw [mapError_bind, ok_bind, same]
  refine bind_congr fun withEdges => ?_
  rw [ok_bind, same]

/-- No step of the reading can fail but by an answer. -/
theorem decodeGuarded_eq (id : MeshId) (name : String) (bytes : Bytes) :
    decodeGuarded id name bytes = (decodeMesh id name bytes).mapError .fault := by
  rw [decodeMesh_eq, decodeGuarded, screenGuarded_eq]
  cases hscreen : screen bytes with
  | error fault => rfl
  | ok u =>
    have front := screen_ok_iff.1 hscreen
    show partsGuarded id name bytes (headerOf bytes) = (decodeParts id name bytes).mapError .fault
    rw [decodeParts_eq id name front, partsGuarded_eq id name front]

/-! ## Receiving -/

section
variable {e : Endpoint} {peer : Rank} {tag : Tag} {box box' : Mailbox}

/-- Bytes that are taken for a box have its kind. -/
theorem kind_of_receiveBox (h : e.collect peer tag box = (some bytes, box')) {b : Box Double}
    (hb : (receiveBox e peer tag box).1 = .ok b) : numberAt bytes 2 2 = 2 := by
  have hreceive : (receiveBox e peer tag box).1 =
      (Endpoint.wholly BoxRecord bytes).mapError (.transfer peer) >>= boxOfRecords := by
    unfold receiveBox Endpoint.receiveAll Endpoint.receiveWith
    rw [h]
    dsimp only
    cases Endpoint.wholly BoxRecord bytes <;> rfl
  rw [hreceive] at hb
  obtain ⟨records, hrecords, hb⟩ := bind_ok hb
  have hrecords : decodeAll BoxRecord bytes = .ok records :=
    mapError_eq_ok.1 (mapError_eq_ok.1 hrecords)
  match records, hb with
  | [r], hb =>
    have hr : Record.decode (bytes.take 56) = r := decodeAll_singleton hrecords
    have hcheck : r.header.check boxKind = .ok () := by
      cases hc : r.header.check boxKind with
      | error cause =>
        rw [boxOfRecords, hc] at hb
        cases hb
      | ok u => rfl
    have front : (bytes.take 56).take 8 = bytes.take 8 := by rw [List.take_take]; rfl
    rw [← hr] at hcheck
    change (Record.decode ((bytes.take 56).take 8) : Header).check boxKind = .ok () at hcheck
    rw [front, check_front_iff (by decide)] at hcheck
    exact hcheck.2

end

/-- Receiving a mesh accepts exactly the bytes that are a mesh message, and no step of the reading
fails in another way than by an answer. What is received passes its check, and is not a box. -/
theorem receiveMesh_accepts {e : Endpoint} {peer : Rank} {tag : Tag} {box box' : Mailbox}
    (h : e.collect peer tag box = (some bytes, box')) (id : MeshId) (name : String) :
    ∃ reply, receiveMesh e peer tag id name box = (reply, box') ∧
      decodeGuarded id name bytes = reply.mapError .fault ∧
      ((∃ m, reply = .ok m) ↔ MeshFormat bytes) ∧
      (∀ m, reply = .ok m → m.validate = .ok ()) ∧
      ¬ ((∃ m, reply = .ok m) ∧ ∃ b, (receiveBox e peer tag box).1 = .ok b) := by
  refine ⟨decodeMesh id name bytes, ?_, decodeGuarded_eq id name bytes, decodeMesh_ok_iff id name,
    fun m => validate_of_decodeMesh, ?_⟩
  · unfold receiveMesh Endpoint.receiveWith
    rw [h]
    rfl
  · rintro ⟨hm, b, hb⟩
    have hmesh : numberAt bytes 2 2 = 1 := ((decodeMesh_ok_iff id name).1 hm).kind
    have hbox : numberAt bytes 2 2 = 2 := kind_of_receiveBox h hb
    omega

/-- A plane mesh of one vertex that is sent as many bytes as a box. -/
def loneVertex : Bytes :=
  [1, 0, 1, 0, 0, 0, 0, 0, 2, 0, 0, 0, 1, 0, 0, 0, 0, 0, 0, 0, 0, 0, 0, 0] ++ List.replicate 32 0

theorem receiveMesh_loneVertex :
    ∃ reply, receiveMesh (.member 1 2) 0 7 4 "there" ⟨[(⟨0, 1, 7⟩, loneVertex)]⟩ = (reply, {}) ∧
      decodeGuarded 4 "there" loneVertex = reply.mapError .fault ∧
      ((∃ m, reply = .ok m) ↔ MeshFormat loneVertex) ∧
      (∀ m, reply = .ok m → m.validate = .ok ()) ∧
      ¬ ((∃ m, reply = .ok m) ∧
        ∃ b, (receiveBox (.member 1 2) 0 7 ⟨[(⟨0, 1, 7⟩, loneVertex)]⟩).1 = .ok b) :=
  receiveMesh_accepts (by decide) 4 "there"

end Cosimulation.Exchange

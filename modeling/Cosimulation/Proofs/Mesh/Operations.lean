import Cosimulation.Mesh.Basic

/-!
# Meshes under their operations

`Operation` lists what can be asked of a mesh, `apply` does it, and `run` does one operation after
the other; one that fails leaves the mesh as it is.

All operations together change a mesh in six ways only (`Change`, `change_of_apply`): a vertex, an
edge or a triangle is appended, vertices get other marks or global indices, fields change, or
everything is dropped. Each of these keeps the bookkeeping of a mesh in order (`Consistent`): an
entity carries its position as ID, edges have ends, and triangles have the corners that their edges
form. So the bookkeeping is in order after every run (`consistent_run`).

What a triangle refers to does not change under it: edges are only appended, and the corners that
some edges form stay the same (`corners?_append`).
-/

namespace Cosimulation

variable {α : Type}

/-- What no operation changes of a vertex. -/
def Vertex.place (v : Vertex α) : Nat × Point α := (v.id, v.position)

namespace Mesh

/-- A change asked of a mesh. -/
inductive Operation (α : Type) where
  | addVertex (coordinates : List α)
  | addEdge (a b : Nat)
  | addTriangle (edges : Nat × Nat × Nat)
  | setGlobalIndex (vertex : Nat) (index : UInt64)
  | tag (vertex : Nat)
  | untag (vertex : Nat)
  | untagAll
  | addField (id : DataId) (name : String) (dimension : Nat)
  | setValues (id : DataId) (values : Vec α)
  | allocate
  | clear

section
variable [Zero α]

/-- The mesh after an operation. -/
def apply (m : Mesh α) : Operation α → Except (Failure α) (Mesh α)
  | .addVertex coordinates => (m.addVertex coordinates).mapError .fault
  | .addEdge a b => (m.addEdge a b).mapError .fault
  | .addTriangle edges => (m.addTriangle edges).mapError .fault
  | .setGlobalIndex v index => (m.setGlobalIndex v index).mapError .violation
  | .tag v => (m.tag v).mapError .violation
  | .untag v => (m.untag v).mapError .violation
  | .untagAll => .ok m.untagAll
  | .addField id name dimension => (m.addField id name dimension).mapError .violation
  | .setValues id values => ((m.field id).map fun _ => m.withValues id values).mapError .fault
  | .allocate => m.allocate.mapError .violation
  | .clear => .ok m.clear

/-- The mesh after an operation that may fail. -/
def after (m : Mesh α) (op : Operation α) : Mesh α :=
  match m.apply op with
  | .ok m' => m'
  | .error _ => m

/-- The mesh after several operations. -/
def run (m : Mesh α) (ops : List (Operation α)) : Mesh α := ops.foldl after m

/-! ## What an operation changes -/

/-- The ways in which one mesh follows from another. -/
inductive Change (m : Mesh α) : Mesh α → Prop
  | vertex (p : Point α) (flat : m.dimensions = 2 → p.z = 0) :
    Change m { m with vertices := m.vertices ++ [{ id := m.vertices.length, position := p }] }
  | edge (a b : Nat) (ha : a < m.vertices.length) (hb : b < m.vertices.length) :
    Change m { m with edges := m.edges ++ [⟨m.edges.length, (a, b)⟩] }
  | triangle (edges corners : Nat × Nat × Nat) (closed : m.corners? edges = some corners) :
    Change m { m with triangles := m.triangles ++ [⟨m.triangles.length, edges, corners⟩] }
  | marks (vs : List (Vertex α)) (same : vs.map Vertex.place = m.vertices.map Vertex.place) :
    Change m { m with vertices := vs }
  | fields (fs : List (Field α)) : Change m { m with fields := fs }
  | dropped (fs : List (Field α)) :
    Change m { m with vertices := [], edges := [], triangles := [], fields := fs }

/-- A position in the plane has no height. -/
theorem flat_of_position? {dimensions : Nat} {coordinates : List α} {p : Point α}
    (h : position? dimensions coordinates = some p) (hd : dimensions = 2) : p.z = 0 := by
  subst hd
  unfold position? at h
  split at h
  next => cases h; rfl
  next => contradiction
  next => cases h

theorem change_of_addVertex {m m' : Mesh α} {coordinates : List α}
    (h : m.addVertex coordinates = .ok m') : Change m m' := by
  unfold addVertex at h
  split at h
  next => cases h
  next p hp =>
    cases h
    exact .vertex p (flat_of_position? hp)

theorem change_of_addEdge {m m' : Mesh α} {a b : Nat} (h : m.addEdge a b = .ok m') :
    Change m m' := by
  unfold addEdge at h
  simp only at h
  split at h
  next => cases h
  next ha =>
    split at h
    next => cases h
    next hb =>
      cases h
      exact .edge a b (by omega) (by omega)

theorem change_of_addTriangle {m m' : Mesh α} {edges : Nat × Nat × Nat}
    (h : m.addTriangle edges = .ok m') : Change m m' := by
  unfold addTriangle at h
  split at h
  next => cases h
  next corners hc =>
    cases h
    exact .triangle edges corners hc

/-- A vertex may get other marks, as long as it stays in its place. -/
theorem change_of_modifyVertex {m m' : Mesh α} {v : Nat} {f : Vertex α → Vertex α}
    (h : m.modifyVertex v f = .ok m') (hf : ∀ vertex, (f vertex).place = vertex.place) :
    Change m m' := by
  unfold modifyVertex at h
  split at h
  next =>
    cases h
    refine .marks _ (List.ext_getElem? fun i => ?_)
    rw [List.getElem?_map, List.getElem?_map, List.getElem?_modify]
    cases m.vertices[i]? with
    | none => rfl
    | some vertex => by_cases hi : v = i <;> simp [hi, hf]
  next => cases h

theorem change_of_addField {m m' : Mesh α} {id : DataId} {name : String} {dimension : Nat}
    (h : m.addField id name dimension = .ok m') : Change m m' := by
  unfold addField at h
  split at h
  next => cases h
  next =>
    obtain ⟨size, _, h⟩ := bind_ok h
    obtain ⟨values, _, h⟩ := bind_ok h
    cases h
    exact .fields _

theorem change_of_allocate {m m' : Mesh α} (h : m.allocate = .ok m') : Change m m' := by
  obtain ⟨fs, _, h⟩ := bind_ok h
  cases h
  exact .fields fs

/-- An operation that succeeds changes the mesh in one of the six ways. -/
theorem change_of_apply {m m' : Mesh α} {op : Operation α} (h : m.apply op = .ok m') :
    Change m m' := by
  cases op with
  | addVertex => exact change_of_addVertex (mapError_eq_ok.1 h)
  | addEdge => exact change_of_addEdge (mapError_eq_ok.1 h)
  | addTriangle => exact change_of_addTriangle (mapError_eq_ok.1 h)
  | setGlobalIndex => exact change_of_modifyVertex (mapError_eq_ok.1 h) fun _ => rfl
  | tag => exact change_of_modifyVertex (mapError_eq_ok.1 h) fun _ => rfl
  | untag => exact change_of_modifyVertex (mapError_eq_ok.1 h) fun _ => rfl
  | untagAll =>
    cases h
    exact .marks _ (by rw [List.map_map]; rfl)
  | addField => exact change_of_addField (mapError_eq_ok.1 h)
  | setValues id values =>
    have h := mapError_eq_ok.1 h
    cases hf : m.field id with
    | error fault => rw [hf] at h; cases h
    | ok f =>
      rw [hf] at h
      cases h
      exact .fields _
  | allocate => exact change_of_allocate (mapError_eq_ok.1 h)
  | clear =>
    cases h
    exact .dropped _

/-! ## Bookkeeping -/

/-- The bookkeeping of a mesh is in order. -/
structure Consistent (m : Mesh α) : Prop where
  dimensions : m.dimensions = 2 ∨ m.dimensions = 3
  flat : m.dimensions = 2 → ∀ v ∈ m.vertices, v.position.z = 0
  vertexIds : m.vertices.map Vertex.id = List.range m.vertices.length
  edgeIds : m.edges.map Edge.id = List.range m.edges.length
  triangleIds : m.triangles.map Triangle.id = List.range m.triangles.length
  ends : ∀ e ∈ m.edges, e.ends.1 < m.vertices.length ∧ e.ends.2 < m.vertices.length
  corners : ∀ t ∈ m.triangles, m.corners? t.edges = some t.corners

/-- Numbering goes on with the next number. -/
theorem ids_append {β : Type} {id : β → Nat} {bs : List β} {b : β}
    (h : bs.map id = List.range bs.length) (hb : id b = bs.length) :
    (bs ++ [b]).map id = List.range (bs ++ [b]).length := by
  rw [List.map_append, h, List.length_append, List.length_singleton, List.range_succ]
  simp [hb]

end

/-- The corners of three edges depend on the edges alone. -/
theorem corners?_eq_some_iff {m : Mesh α} {a b c : Nat} {corners : Nat × Nat × Nat} :
    m.corners? (a, b, c) = some corners ↔ ∃ x y z, m.edges[a]? = some x ∧ m.edges[b]? = some y ∧
      m.edges[c]? = some z ∧ closedTriangle? x.ends y.ends z.ends = some corners := by
  simp only [corners?, Option.bind_eq_bind, Option.bind_eq_some_iff]
  constructor
  · rintro ⟨x, hx, y, hy, z, hz, h⟩
    exact ⟨x, y, z, hx, hy, hz, h⟩
  · rintro ⟨x, y, z, hx, hy, hz, h⟩
    exact ⟨x, hx, y, hy, z, hz, h⟩

/-- Edges that form a triangle still do when there are more edges. -/
theorem corners?_append {m m' : Mesh α} {more : List Edge} (hm : m'.edges = m.edges ++ more)
    {edges corners : Nat × Nat × Nat} (h : m.corners? edges = some corners) :
    m'.corners? edges = some corners := by
  obtain ⟨a, b, c⟩ := edges
  obtain ⟨x, y, z, hx, hy, hz, h⟩ := corners?_eq_some_iff.1 h
  have keep {i : Nat} {e : Edge} (he : m.edges[i]? = some e) : m'.edges[i]? = some e := by
    rw [hm, List.getElem?_append_left (List.getElem?_eq_some_iff.1 he).1, he]
  exact corners?_eq_some_iff.2 ⟨x, y, z, keep hx, keep hy, keep hz, h⟩

section
variable [Zero α]

theorem Consistent.change {m m' : Mesh α} (h : m.Consistent) (hc : Change m m') :
    m'.Consistent := by
  cases hc with
  | vertex p flat =>
    refine { h with
      flat := fun hd v hv => ?_, vertexIds := ids_append h.vertexIds rfl, ends := fun e he => ?_ }
    · rcases List.mem_append.1 hv with hv | hv
      · exact h.flat hd v hv
      · rw [List.mem_singleton.1 hv]
        exact flat hd
    · have := h.ends e he
      simp only [List.length_append, List.length_singleton]
      omega
  | edge a b ha hb =>
    refine { h with
      edgeIds := ids_append h.edgeIds rfl
      ends := fun e he => ?_
      corners := fun t ht => corners?_append rfl (h.corners t ht) }
    rcases List.mem_append.1 he with he | he
    · exact h.ends e he
    · rw [List.mem_singleton.1 he]
      exact ⟨ha, hb⟩
  | triangle edges corners closed =>
    refine { h with
      triangleIds := ids_append h.triangleIds rfl
      corners := fun t ht => ?_ }
    rcases List.mem_append.1 ht with ht | ht
    · exact h.corners t ht
    · rw [List.mem_singleton.1 ht]
      exact closed
  | marks vs same =>
    -- IDs and positions are parts of the places, which are as before.
    have hl : vs.length = m.vertices.length := by simpa using congrArg List.length same
    have hids : vs.map Vertex.id = m.vertices.map Vertex.id := by
      simpa [Function.comp_def, Vertex.place] using congrArg (List.map Prod.fst) same
    refine { h with
      flat := fun hd v hv => ?_
      vertexIds := by rw [hids, hl, h.vertexIds]
      ends := fun e he => by rw [hl]; exact h.ends e he }
    have hplace : v.place ∈ m.vertices.map Vertex.place := same ▸ List.mem_map_of_mem hv
    obtain ⟨v', hv', heq⟩ := List.mem_map.1 hplace
    rw [show v.position = v'.position from congrArg Prod.snd heq.symm]
    exact h.flat hd v' hv'
  | fields fs => exact { h with }
  | dropped fs =>
    exact ⟨h.dimensions, by simp, rfl, rfl, rfl, by simp, by simp⟩

theorem Consistent.after {m : Mesh α} (h : m.Consistent) (op : Operation α) :
    (m.after op).Consistent := by
  unfold Mesh.after
  split
  next hm => exact h.change (change_of_apply hm)
  next => exact h

theorem Consistent.run {m : Mesh α} (h : m.Consistent) (ops : List (Operation α)) :
    (m.run ops).Consistent := by
  induction ops generalizing m with
  | nil => exact h
  | cons op ops ih => exact ih (h.after op)

theorem consistent_new {id : MeshId} {name : String} {dimensions : Nat} {m : Mesh α}
    (h : Mesh.new id name dimensions = .ok m) : m.Consistent := by
  unfold Mesh.new at h
  split at h
  next hd =>
    cases h
    exact ⟨hd, by simp, rfl, rfl, rfl, by simp, by simp⟩
  next => cases h

/-- Every run from an empty mesh keeps the bookkeeping in order. -/
theorem consistent_run {id : MeshId} {name : String} {dimensions : Nat} {m : Mesh α}
    (h : Mesh.new id name dimensions = .ok m) (ops : List (Operation α)) :
    (m.run ops).Consistent :=
  (consistent_new h).run ops

end

end Mesh

end Cosimulation

import Cosimulation.Proofs.Mesh.Fields

/-!
# Meshes over whole runs

Whatever is asked of a mesh, its entities stay in order: they carry their positions as IDs, and what
they refer to is there (`InOrder`). Values are what lags behind. After vertices were added the
fields are too short, and that is all a check can find; it finds nothing right after the fields were
brought to length or emptied.

A field that is brought to length keeps what it holds for the vertices there are, in place, and gets
nothing but zeros (`Field.Continues`). Vertices are only dropped all at once, together with the
values, so this goes on over any number of operations, up to the next one that drops everything or
replaces the values of the field (`continues_run`). `run_lasting` puts this together.
-/

namespace Cosimulation.Mesh

variable {α : Type} {m m' : Mesh α} {id : DataId} {f f' f'' : Field α} {n n' : Nat}

/-! ## The check -/

/-- A check of fields fails at a field that has not as many values as the vertices need, or more
values than can be counted. -/
theorem validateFields_error {e : Failure α} : ∀ {fs : List (Field α)},
    validateFields n fs = .error e → ∃ f ∈ fs,
      (f.values.length ≠ n * f.dimension ∧
        e = .fault (.dataSizeMismatch f.id (n * f.dimension) f.values.length)) ∨
      (UInt64.size ≤ n * f.dimension ∧ e = .violation .bounds) := by
  intro fs
  induction fs with
  | nil => exact fun h => nomatch h
  | cons f fs ih =>
    intro h
    by_cases hcount : n * f.dimension < UInt64.size
    · have hsize : (scalarCount n f.dimension : Except (Violation α) Nat) =
          .ok (n * f.dimension) := if_pos hcount
      rw [validateFields, hsize, mapError_ok, ok_bind] at h
      split at h
      next =>
        obtain ⟨g, hg, hfail⟩ := ih h
        exact ⟨g, List.mem_cons_of_mem _ hg, hfail⟩
      next hlength => exact ⟨f, List.mem_cons_self, .inl ⟨hlength, (Except.error.inj h).symm⟩⟩
    · have hsize : (scalarCount n f.dimension : Except (Violation α) Nat) = .error .bounds :=
        if_neg hcount
      rw [validateFields, hsize] at h
      exact ⟨f, List.mem_cons_self, .inr ⟨not_lt.1 hcount, (Except.error.inj h).symm⟩⟩

/-- A mesh in order whose fields were brought to length passes its check. -/
theorem Consistent.validate_allocate [Zero α] (h : m.Consistent)
    (hm : m.apply .allocate = .ok m') : m'.validate = .ok () := by
  have hconsistent : m'.Consistent := h.change (change_of_apply hm)
  obtain ⟨fields, hfields, hm⟩ := bind_ok (mapError_eq_ok.1 hm)
  obtain rfl := Except.ok.inj hm
  refine hconsistent.validate fun f' hf' => ?_
  obtain ⟨f, -, hfit⟩ := Search.mem_of_mapM hfields f' hf'
  obtain ⟨hcount, rfl⟩ := fit_eq hfit
  rw [Field.Complete, hcount]
  simp
  omega

theorem Consistent.validate_clear [Zero α] (h : m.Consistent) : m.clear.validate = .ok () := by
  have hconsistent : m.clear.Consistent :=
    h.change (change_of_apply (rfl : m.apply .clear = .ok m.clear))
  refine hconsistent.validate fun f' hf' => ?_
  obtain ⟨f, -, rfl⟩ := List.mem_map.1 hf'
  show scalarCount 0 f.dimension = .ok 0
  rw [scalarCount, Nat.zero_mul]
  rfl

/-- A field can be brought to length as long as that many scalars can be held. -/
theorem Field.fit_succeeds [Zero α] (h : n * f.dimension < capacity) :
    ∃ f', Field.fit n f = .ok f' := by
  have hcount : n * f.dimension < UInt64.size := h.trans (by decide)
  rw [Field.fit, scalarCount, if_pos hcount, ok_bind, zeros, if_pos h]
  split
  · exact ⟨f, rfl⟩
  · exact ⟨_, rfl⟩

/-! ## Values -/

theorem field_eq_ok : m.field id = .ok f ↔ m.fields.find? (fun f => f.id == id) = some f := by
  unfold field
  split
  next g hg => rw [hg, Except.ok.injEq, Option.some.injEq]
  next hnone => rw [hnone]; exact ⟨nofun, nofun⟩

theorem find?_setValues_of_ne {id' : DataId} {values : Vec α} (hne : id' ≠ id) :
    ∀ fs : List (Field α), (setValues id' values fs).find? (fun f => f.id == id) =
      fs.find? fun f => f.id == id := by
  intro fs
  induction fs with
  | nil => rfl
  | cons f fs ih =>
    rw [setValues]
    split
    next hf =>
      have hmiss : (f.id == id) = false := beq_false_of_ne (hf ▸ hne)
      rw [List.find?_cons_of_neg (by simp [hmiss]), List.find?_cons_of_neg (by simp [hmiss])]
    next => rw [List.find?_cons, List.find?_cons, ih]

/-- A field goes on as another one: what it holds for each of a number of vertices stays in its
place, and nothing but zeros is added. -/
structure Field.Continues [Zero α] (vertices : Nat) (f f' : Field α) : Prop where
  dimension : f'.dimension = f.dimension
  kept : ∀ v < vertices, ∀ c < f.dimension, ∀ x : α,
    f.values[v * f.dimension + c]? = some x → f'.values[v * f.dimension + c]? = some x
  fresh : ∀ (i : Nat) (x : α), f'.values[i]? = some x → f.values[i]? = some x ∨ x = 0

section
variable [Zero α]

theorem Field.Continues.refl (n : Nat) (f : Field α) : Field.Continues n f f :=
  ⟨rfl, fun _ _ _ _ _ h => h, fun _ _ h => .inl h⟩

theorem Field.Continues.trans (h : Field.Continues n f f') (h' : Field.Continues n' f' f'')
    (hn : n ≤ n') : Field.Continues n f f'' where
  dimension := h'.dimension.trans h.dimension
  kept v hv c hc x hx := by
    have hlater := h'.kept v (hv.trans_le hn) c (h.dimension ▸ hc) x
    rw [h.dimension] at hlater
    exact hlater (h.kept v hv c hc x hx)
  fresh i x hx := (h'.fresh i x hx).elim (h.fresh i x) .inr

theorem Field.continues_fit (h : Field.fit n f = .ok f') : Field.Continues n f f' := by
  obtain ⟨-, rfl⟩ := fit_eq h
  refine ⟨rfl, fun v hv c hc x hx => ?_, fun i x hx => ?_⟩
  · have hi : v * f.dimension + c < n * f.dimension := place_lt hv hc
    have hlength : v * f.dimension + c < (f.values.take (n * f.dimension)).length := by
      have := (List.getElem?_eq_some_iff.1 hx).1
      rw [List.length_take]
      omega
    rw [List.getElem?_append_left hlength, List.getElem?_take_of_lt hi, hx]
  · rcases lt_or_ge i (f.values.take (n * f.dimension)).length with hold | hnew
    · have hi : i < n * f.dimension := hold.trans_le (List.length_take_le _ _)
      rw [List.getElem?_append_left hold, List.getElem?_take_of_lt hi] at hx
      exact .inl hx
    · rw [List.getElem?_append_right hnew] at hx
      exact .inr (List.eq_of_mem_replicate (List.mem_of_getElem? hx))

theorem find?_fitted {fs fs' : List (Field α)}
    (h : List.Forall₂ (fun f f' => Field.fit n f = .ok f') fs fs')
    (hf : fs.find? (fun f => f.id == id) = some f) :
    ∃ f', Field.fit n f = .ok f' ∧ fs'.find? (fun f => f.id == id) = some f' := by
  induction h with
  | nil => cases hf
  | @cons g g' gs gs' hg _ ih =>
    have hid : g'.id = g.id := by rw [(fit_eq hg).2]
    rw [List.find?_cons] at hf ⊢
    rw [hid]
    split at hf
    next =>
      obtain rfl := Option.some.inj hf
      exact ⟨g', hg, rfl⟩
    next => exact ih hf

/-- An operation neither drops everything nor replaces the values of a field. -/
def Operation.Spares (id : DataId) : Operation α → Prop
  | .clear => False
  | .setValues id' _ => id' ≠ id
  | _ => True

/-- Such an operation drops no vertices, and the field goes on. -/
theorem continues_after {op : Operation α} (hop : op.Spares id) (hf : m.field id = .ok f) :
    m.vertices.length ≤ (m.after op).vertices.length ∧
      ∃ f', (m.after op).field id = .ok f' ∧ Field.Continues m.vertices.length f f' := by
  unfold after
  split
  next m' hm =>
    rw [field_eq_ok] at hf
    simp only [field_eq_ok]
    cases fieldChange_of_apply hm with
    | untouched fields grown => exact ⟨grown, f, fields ▸ hf, .refl _ f⟩
    | added values => exact ⟨le_rfl, f, by rw [List.find?_append, hf]; rfl, .refl _ f⟩
    | replaced => exact ⟨le_rfl, f, (find?_setValues_of_ne hop _).trans hf, .refl _ f⟩
    | fitted hfit =>
      obtain ⟨f', hf', hfound⟩ := find?_fitted (Search.forall₂_of_mapM hfit) hf
      exact ⟨le_rfl, f', hfound, Field.continues_fit hf'⟩
    | emptied => exact hop.elim
  next => exact ⟨le_rfl, f, hf, .refl _ f⟩

theorem continues_run : ∀ {ops : List (Operation α)} {m : Mesh α} {f : Field α},
    (∀ op ∈ ops, op.Spares id) → m.field id = .ok f →
      ∃ f', (m.run ops).field id = .ok f' ∧ Field.Continues m.vertices.length f f' := by
  intro ops
  induction ops with
  | nil => exact fun _ hf => ⟨_, hf, .refl _ _⟩
  | cons op ops ih =>
    intro m f hops hf
    obtain ⟨hgrown, f₁, hf₁, hnext⟩ := continues_after (hops op List.mem_cons_self) hf
    obtain ⟨f₂, hf₂, hlater⟩ := ih (fun op' h => hops op' (List.mem_cons_of_mem _ h)) hf₁
    exact ⟨f₂, hf₂, hnext.trans hlater hgrown⟩

end

/-! ## Whole runs -/

/-- Every entity carries its position as ID. Edges end at vertices. Triangles lie over three edges
that close up, and have their ends as corners, three different vertices. -/
structure InOrder (m : Mesh α) : Prop where
  vertices : ∀ (i : Nat) (v : Vertex α), m.vertices[i]? = some v → v.id = i
  edges : ∀ (i : Nat) (e : Edge), m.edges[i]? = some e →
    e.id = i ∧ e.ends.1 < m.vertices.length ∧ e.ends.2 < m.vertices.length
  triangles : ∀ (i : Nat) (t : Triangle), m.triangles[i]? = some t → t.id = i ∧
    m.CloseUp t.edges.1 t.edges.2.1 t.edges.2.2 ∧
    m.CornersOver t.edges.1 t.edges.2.1 t.edges.2.2 t.corners ∧
    ∀ v, IsCorner v t.corners → v < m.vertices.length

theorem Consistent.inOrder [Zero α] (h : m.Consistent) : m.InOrder where
  vertices _ _ hv := Search.id_of_range h.vertexIds hv
  edges _ _ he := ⟨Search.id_of_range h.edgeIds he, h.ends _ (List.mem_of_getElem? he)⟩
  triangles i t ht := by
    have hmem : t ∈ m.triangles := List.mem_of_getElem? ht
    have hcorners : m.corners? t.edges = some t.corners := h.corners t hmem
    have haccepted : ∃ m', m.addTriangle t.edges = .ok m' :=
      ⟨_, addTriangle_ok_iff.2 ⟨_, hcorners, rfl⟩⟩
    refine ⟨Search.id_of_range h.triangleIds ht, exists_addTriangle_iff.1 haccepted,
      cornersOver hcorners, fun v hv => ?_⟩
    obtain ⟨h₁, h₂, h₃⟩ := h.corners_lt hmem
    rcases hv with rfl | rfl | rfl
    · exact h₁
    · exact h₂
    · exact h₃

/-- Nothing gets lost and nothing gets mixed up: the entities are in order, the check can only find
fields of another length than the vertices need, and it finds none right after the fields were
brought to length or emptied. Whatever is done later, a field goes on as it was, up to the next
operation that drops everything or replaces its values. Numbers of scalars that cannot be counted or
held are violations. -/
structure Lasting [Zero α] (m : Mesh α) : Prop where
  inOrder : m.InOrder
  fault : ∀ fault, m.validate = .error (.fault fault) → ∃ f ∈ m.fields,
    f.values.length ≠ m.vertices.length * f.dimension ∧
      fault = .dataSizeMismatch f.id (m.vertices.length * f.dimension) f.values.length
  violation : ∀ violation, m.validate = .error (.violation violation) →
    ∃ f ∈ m.fields, UInt64.size ≤ m.vertices.length * f.dimension
  allocated : ∀ m', m.apply .allocate = .ok m' → m'.validate = .ok ()
  unallocated : ∀ e, m.apply .allocate = .error e →
    ∃ f ∈ m.fields, capacity ≤ m.vertices.length * f.dimension
  cleared : m.apply .clear = .ok m.clear ∧ m.clear.validate = .ok ()
  continues : ∀ (id : DataId) (f : Field α), m.field id = .ok f →
    ∀ later : List (Operation α), (∀ op ∈ later, op.Spares id) →
      ∃ f', (m.run later).field id = .ok f' ∧ Field.Continues m.vertices.length f f'

theorem Consistent.lasting [Zero α] (h : m.Consistent) : m.Lasting where
  inOrder := h.inOrder
  fault fault hfault := by
    rw [h.validate_eq] at hfault
    obtain ⟨f, hf, ⟨hlength, heq⟩ | ⟨-, heq⟩⟩ := validateFields_error hfault
    · exact ⟨f, hf, hlength, Failure.fault.inj heq⟩
    · cases heq
  violation violation hviolation := by
    rw [h.validate_eq] at hviolation
    obtain ⟨f, hf, ⟨-, heq⟩ | ⟨hcount, -⟩⟩ := validateFields_error hviolation
    · cases heq
    · exact ⟨f, hf, hcount⟩
  allocated _ := h.validate_allocate
  unallocated e he := by
    by_contra hroom
    obtain ⟨fs, hfit⟩ := Search.mapM_succeeds fun f hf =>
      Field.fit_succeeds (not_le.1 fun hlarge => hroom ⟨f, hf, hlarge⟩)
    rw [Mesh.apply, Mesh.allocate, hfit] at he
    cases he
  cleared := ⟨rfl, h.validate_clear⟩
  continues _ _ hf _ hlater := continues_run hlater hf

/-- So it is after every run from an empty mesh. -/
theorem run_lasting [Zero α] {id : MeshId} {name : String} {dimensions : Nat}
    (h : Mesh.new id name dimensions = .ok m) (ops : List (Operation α)) : (m.run ops).Lasting :=
  (consistent_run h ops).lasting

/-- Two scalars on the one vertex of a mesh. -/
def heated : List (Operation Int) := [.addVertex [0, 0], .addField 7 "heat" 2, .setValues 7 [3, 4]]

theorem run_lasting_heated : ∃ m, Mesh.new 1 "plate" 2 = .ok m ∧ (m.run heated).Lasting ∧
    ((m.run heated).run [.addVertex [1, 0], .allocate]).field 7 =
      .ok ⟨7, "heat", 2, [3, 4, 0, 0]⟩ :=
  ⟨_, rfl, run_lasting (rfl : Mesh.new 1 "plate" 2 = .ok _) heated, rfl⟩

end Cosimulation.Mesh

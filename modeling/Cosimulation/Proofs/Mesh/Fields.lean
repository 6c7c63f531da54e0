import Cosimulation.Proofs.Mesh.Triangles
import Cosimulation.Proofs.Search.Fresh

/-!
# What operations do to fields

Most operations leave the fields of a mesh alone; one each adds a field, replaces the values of one,
brings all to length and empties all (`FieldChange`, `fieldChange_of_apply`). A field that is
brought to length is cut off or filled up with zeros (`fit_eq`).

A field has a positive number of scalars for each vertex from the start, and no operation changes
that number (`dimensions_of_apply`). So all fields of a mesh have one after every run
(`Dimensioned.after`).
-/

namespace Cosimulation.Mesh

/-! ## Places -/

section
variable {dimension v u c c' n : Nat}

/-- The scalars of a vertex lie below those of the vertices after it. -/
theorem place_lt (hv : v < n) (hc : c < dimension) : v * dimension + c < n * dimension :=
  calc v * dimension + c < v * dimension + dimension := Nat.add_lt_add_left hc _
    _ = (v + 1) * dimension := (Nat.succ_mul v dimension).symm
    _ ≤ n * dimension := Nat.mul_le_mul_right dimension hv

theorem place_div (hc : c < dimension) : (v * dimension + c) / dimension = v := by
  rw [Nat.mul_comm v, Nat.mul_add_div (Nat.zero_lt_of_lt hc), Nat.div_eq_of_lt hc, Nat.add_zero]

theorem place_inj (hc : c < dimension) (hc' : c' < dimension) :
    v * dimension + c = u * dimension + c' ↔ c = c' ∧ v = u := by
  refine ⟨fun h => ?_, fun ⟨hc, hv⟩ => by rw [hc, hv]⟩
  obtain rfl : v = u := (place_div hc).symm.trans (h ▸ place_div hc')
  exact ⟨Nat.add_left_cancel h, rfl⟩

end

/-! ## Dimensions -/

variable {α : Type} {m m' : Mesh α}

/-- Every field has scalars on a vertex. -/
def Dimensioned (m : Mesh α) : Prop := ∀ n ∈ m.fields.map Field.dimension, 0 < n

theorem mem_fields {f : Field α} {id : DataId} (h : m.field id = .ok f) : f ∈ m.fields := by
  unfold Mesh.field at h
  split at h
  next g hg =>
    obtain rfl := Except.ok.inj h
    exact List.mem_of_find?_eq_some hg
  next => cases h

theorem Dimensioned.field {f : Field α} {id : DataId} (h : m.Dimensioned)
    (hf : m.field id = .ok f) : 0 < f.dimension :=
  h _ (List.mem_map_of_mem (mem_fields hf))

theorem dimensions_setValues {id : DataId} {values : Vec α} : ∀ {fs : List (Field α)},
    (setValues id values fs).map Field.dimension = fs.map Field.dimension := by
  intro fs
  induction fs with
  | nil => rfl
  | cons f fs ih =>
    rw [setValues]
    split
    · rfl
    · rw [List.map_cons, List.map_cons, ih]

theorem Dimensioned.withValues (h : m.Dimensioned) (id : DataId) (values : Vec α) :
    (m.withValues id values).Dimensioned := by
  rw [Dimensioned, Mesh.withValues, dimensions_setValues]
  exact h

/-! ## Lengths -/

variable [Zero α]

theorem zeros_eq {n : Nat} {values : Vec α}
    (h : (zeros n : Except (Violation α) (List α)) = .ok values) : values = List.replicate n 0 := by
  unfold zeros at h
  split at h
  next => exact (Except.ok.inj h).symm
  next => cases h

/-- A field that was brought to length is cut off there or filled up with zeros. -/
theorem fit_eq {vertices : Nat} {f f' : Field α} (h : Field.fit vertices f = .ok f') :
    (scalarCount vertices f.dimension : Except (Violation α) Nat) =
        .ok (vertices * f.dimension) ∧
      f' = { f with values := f.values.take (vertices * f.dimension) ++
        List.replicate (vertices * f.dimension - f.values.length) 0 } := by
  obtain ⟨size, hsize, h⟩ := bind_ok h
  obtain rfl := scalarCount_eq hsize
  refine ⟨hsize, ?_⟩
  dsimp only at h
  split at h
  next hlength =>
    obtain rfl := Except.ok.inj h
    rw [← hlength, List.take_length, Nat.sub_self, List.replicate_zero, List.append_nil]
  next =>
    obtain ⟨blank, hblank, h⟩ := bind_ok h
    obtain rfl := Except.ok.inj h
    have hmissing : vertices * f.dimension - min (vertices * f.dimension) f.values.length =
        vertices * f.dimension - f.values.length := by omega
    rw [zeros_eq hblank, List.drop_replicate, List.length_take, hmissing]

/-! ## Operations -/

/-- What an operation does to the fields of a mesh. -/
inductive FieldChange (m : Mesh α) : Operation α → Mesh α → Prop
  | untouched {op : Operation α} {m' : Mesh α} (fields : m'.fields = m.fields)
      (grown : m.vertices.length ≤ m'.vertices.length) : FieldChange m op m'
  | added {id : DataId} {name : String} {dimension : Nat} (values : Vec α)
      (positive : 0 < dimension) : FieldChange m (.addField id name dimension)
        { m with fields := m.fields ++ [⟨id, name, dimension, values⟩] }
  | replaced {id : DataId} {values : Vec α} :
      FieldChange m (.setValues id values) (m.withValues id values)
  | fitted {fs : List (Field α)} (fit : m.fields.mapM (Field.fit m.vertices.length) = .ok fs) :
      FieldChange m .allocate { m with fields := fs }
  | emptied : FieldChange m .clear m.clear

theorem fieldChange_of_modifyVertex {op : Operation α} {v : Nat} {f : Vertex α → Vertex α}
    (h : m.modifyVertex v f = .ok m') : FieldChange m op m' := by
  unfold modifyVertex at h
  split at h
  next =>
    obtain rfl := Except.ok.inj h
    exact .untouched rfl (List.length_modify ..).ge
  next => cases h

/-- Every operation changes the fields in the one way that is its own, or not at all. -/
theorem fieldChange_of_apply {op : Operation α} (h : m.apply op = .ok m') :
    FieldChange m op m' := by
  cases op with
  | addVertex coordinates =>
    have h := mapError_eq_ok.1 h
    unfold addVertex at h
    split at h
    next => cases h
    next =>
      obtain rfl := Except.ok.inj h
      exact .untouched rfl (by simp)
  | addEdge a b =>
    have h := mapError_eq_ok.1 h
    unfold addEdge at h
    dsimp only at h
    split at h
    next => cases h
    next =>
      split at h
      next => cases h
      next =>
        obtain rfl := Except.ok.inj h
        exact .untouched rfl le_rfl
  | addTriangle edges =>
    obtain ⟨corners, -, rfl⟩ := addTriangle_ok_iff.1 (mapError_eq_ok.1 h)
    exact .untouched rfl le_rfl
  | setGlobalIndex v index => exact fieldChange_of_modifyVertex (mapError_eq_ok.1 h)
  | tag v => exact fieldChange_of_modifyVertex (mapError_eq_ok.1 h)
  | untag v => exact fieldChange_of_modifyVertex (mapError_eq_ok.1 h)
  | untagAll =>
    obtain rfl := Except.ok.inj h
    exact .untouched rfl (List.length_map _).ge
  | addField id name dimension =>
    have h := mapError_eq_ok.1 h
    unfold addField at h
    split at h
    next => cases h
    next hpos =>
      obtain ⟨size, -, h⟩ := bind_ok h
      obtain ⟨values, -, h⟩ := bind_ok h
      obtain rfl := Except.ok.inj h
      exact .added values (Nat.pos_of_ne_zero hpos)
  | setValues id values =>
    obtain ⟨field, -, rfl⟩ := map_eq_ok.1 (mapError_eq_ok.1 h)
    exact .replaced
  | allocate =>
    obtain ⟨fields, hfields, h⟩ := bind_ok (mapError_eq_ok.1 h)
    obtain rfl := Except.ok.inj h
    exact .fitted hfields
  | clear =>
    obtain rfl := Except.ok.inj h
    exact .emptied

/-- An operation keeps the dimensions of the fields; it may add one that is positive. -/
theorem dimensions_of_apply {op : Operation α} (h : m.apply op = .ok m') :
    m'.fields.map Field.dimension = m.fields.map Field.dimension ∨
      ∃ n, 0 < n ∧ m'.fields.map Field.dimension = m.fields.map Field.dimension ++ [n] := by
  cases fieldChange_of_apply h with
  | untouched fields => exact .inl (congrArg _ fields)
  | added values positive => exact .inr ⟨_, positive, List.map_append⟩
  | replaced => exact .inl dimensions_setValues
  | fitted hfit =>
    refine .inl (Search.map_of_mapM (fun f f' h => ?_) hfit)
    rw [(fit_eq h).2]
  | emptied => exact .inl (List.map_map ..)

theorem Dimensioned.after (h : m.Dimensioned) (op : Operation α) : (m.after op).Dimensioned := by
  unfold Mesh.after
  split
  next m' hm =>
    rw [Dimensioned]
    rcases dimensions_of_apply hm with hsame | ⟨n, hn, hmore⟩
    · rw [hsame]
      exact h
    · rw [hmore]
      exact fun k hk => (List.mem_append.1 hk).elim (h k) fun hlast =>
        List.mem_singleton.1 hlast ▸ hn
  next => exact h

end Cosimulation.Mesh

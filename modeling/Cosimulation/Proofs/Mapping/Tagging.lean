import Mathlib.Analysis.InnerProductSpace.PiL2
import Cosimulation.Proofs.Mapping.Adjoint
import Cosimulation.Proofs.Mapping.Interpolation
import Cosimulation.Proofs.Mapping.Outdated

/-!
# Tagging

Before the meshes of a run are cut down to what a process needs, a mapping marks the vertices it is
going to use. It computes its table, marks every vertex that a row refers to with a weight that
counts, and drops the table again. The mesh that comes out is the mesh that went in with more marks
(`Mesh.Marks`): one mark at a time, and by induction those of all elements (`tagReferred_marks`).

The table that is computed later, from meshes of the same geometry, is the same one. So what is left
out of a row of a consistent mapping when the marked vertices alone are known right has no weight
that counts, and a row has at most three elements: what is wrong elsewhere by no more than `D` moves
no component of the result by more than `3 / 10 ^ 14 * D` (`abs_gathered_sub_le`).

> `tagFirstRound_tagged`: when tagging succeeds, exactly the marks that are needed were added and
> nothing else has changed, and they suffice for every later transfer.
-/

namespace Cosimulation

/-! ## Marks -/

namespace Mesh

variable {α : Type} {m m' m'' : Mesh α} {v : Nat}

/-- A vertex is there and marked. -/
def IsTagged (m : Mesh α) (v : Nat) : Prop :=
  ∃ vertex, m.vertices[v]? = some vertex ∧ vertex.tagged = true

/-- A mesh is another one with some more vertices marked. -/
structure Marks (m m' : Mesh α) (added : Nat → Prop) : Prop where
  same : m'.untagAll = m.untagAll
  tagged : ∀ v, m'.IsTagged v ↔ m.IsTagged v ∨ added v

theorem Marks.refl (m : Mesh α) : m.Marks m fun _ => False :=
  ⟨rfl, fun _ => (or_false _).symm.to_iff⟩

theorem Marks.trans {added added' : Nat → Prop} (h : m.Marks m' added) (h' : m'.Marks m'' added') :
    m.Marks m'' fun v => added v ∨ added' v :=
  ⟨h'.same.trans h.same, fun v => by rw [h'.tagged, h.tagged, or_assoc]⟩

theorem marks_tag (h : m.tag v = .ok m') : m.Marks m' (· = v) := by
  unfold tag modifyVertex at h
  split at h
  next hv =>
    obtain rfl := Except.ok.inj h
    refine ⟨?_, fun i => ?_⟩
    · refine congrArg (fun vs => { m with vertices := vs }) (List.ext_getElem? fun i => ?_)
      rw [List.getElem?_map, List.getElem?_map, List.getElem?_modify]
      by_cases hi : v = i <;> cases m.vertices[i]? <;> simp [hi]
    · unfold IsTagged
      rw [List.getElem?_modify]
      by_cases hi : v = i
      · obtain rfl := hi
        simp [List.getElem?_eq_getElem hv]
      · simp [hi, Ne.symm hi]
  next => cases h

theorem Marks.length_eq {added : Nat → Prop} (h : m.Marks m' added) :
    m'.vertices.length = m.vertices.length := by
  simpa [untagAll] using congrArg (fun m : Mesh α => m.vertices.length) h.same

theorem Marks.id_eq {added : Nat → Prop} (h : m.Marks m' added) : m'.id = m.id := by
  show m'.untagAll.id = m.untagAll.id
  rw [h.same]

/-- Marks are no part of the geometry. -/
theorem Marks.sameGeometry {added : Nat → Prop} (h : m.Marks m' added) : m.SameGeometry m' where
  vertices := by
    have hplaces : m.untagAll.vertices.map Vertex.place =
        m'.untagAll.vertices.map Vertex.place := by rw [h.same]
    rwa [untagAll, untagAll, List.map_map, List.map_map] at hplaces
  edges := by
    show m.untagAll.edges = m'.untagAll.edges
    rw [h.same]
  triangles := by
    show m.untagAll.triangles = m'.untagAll.triangles
    rw [h.same]

end Mesh

theorem Search.Cache.contains_clear {α : Type} (c : Search.Cache α) (id : MeshId) :
    (c.clear id).contains id = false := by
  have hmiss : (c.current.filter fun e => e.1 != id).lookup id = none :=
    List.lookup_eq_none_iff.2 fun e he => bne_comm.trans (List.mem_filter.1 he).2
  rw [contains, clear, hmiss]
  rfl

namespace Mapping

open Search

section
variable {α : Type} [Scalar α] {m m' : Mesh α} {table : Table α}

/-- A table refers to a vertex with a weight that counts. -/
def Table.Needs (table : Table α) (v : Nat) : Prop :=
  ∃ row ∈ table, ∃ e ∈ row, e.vertex = v ∧ negligible < Scalar.abs e.weight

/-- Elements are marked one after the other. -/
theorem foldlM_marks : ∀ {es : List (Element α)} {m : Mesh α},
    (es.foldlM (fun mesh e =>
      if negligible < Scalar.abs e.weight then mesh.tag e.vertex else .ok mesh) m :
        Except (Violation α) (Mesh α)) = .ok m' →
    m.Marks m' fun v => ∃ e ∈ es, e.vertex = v ∧ negligible < Scalar.abs e.weight := by
  intro es
  induction es with
  | nil =>
    intro m h
    obtain rfl := Except.ok.inj h
    simpa using Mesh.Marks.refl m
  | cons e es ih =>
    intro m h
    rw [List.foldlM_cons] at h
    obtain ⟨m₁, hfirst, hrest⟩ := bind_ok h
    have hlater := ih hrest
    split at hfirst
    next hcounts =>
      have hmarks := (Mesh.marks_tag hfirst).trans hlater
      exact ⟨hmarks.same, fun v => by rw [hmarks.tagged]; simp [hcounts, eq_comm]⟩
    next hcounts =>
      obtain rfl := Except.ok.inj hfirst
      exact ⟨hlater.same, fun v => by rw [hlater.tagged]; simp [hcounts]⟩

theorem tagReferred_marks (h : tagReferred m table = .ok m') : m.Marks m' table.Needs := by
  have hmarks := foldlM_marks h
  refine ⟨hmarks.same, fun v => (hmarks.tagged v).trans (or_congr_right ?_)⟩
  constructor
  · rintro ⟨e, he, hcounts⟩
    obtain ⟨row, hrow, he⟩ := List.mem_flatten.1 he
    exact ⟨row, hrow, e, he, hcounts⟩
  · rintro ⟨row, hrow, e, he, hcounts⟩
    exact ⟨e, List.mem_flatten.2 ⟨row, hrow, he⟩, hcounts⟩

/-- Vertices that are there can be marked. -/
theorem tagReferred_total (h : Table.refersBelow table m.vertices.length = true) :
    ∃ m', tagReferred m table = .ok m' := by
  have hwithin : ∀ e ∈ table.flatten, e.vertex < m.vertices.length := fun e he => by
    obtain ⟨row, hrow, he⟩ := List.mem_flatten.1 he
    exact Table.refersBelow_iff.1 h row hrow e he
  unfold tagReferred
  generalize table.flatten = es at hwithin
  clear h
  induction es generalizing m with
  | nil => exact ⟨m, rfl⟩
  | cons e es ih =>
    obtain ⟨he, hes⟩ := List.forall_mem_cons.1 hwithin
    rw [List.foldlM_cons]
    split
    next =>
      have htag : m.tag e.vertex = .ok
          { m with vertices := m.vertices.modify e.vertex fun v => { v with tagged := true } } :=
        if_pos he
      rw [htag, ok_bind]
      exact ih fun e' he' => (hes e' he').trans_eq (List.length_modify ..).symm
    next => exact ih hes

end

/-! ## One round of tagging -/

section
variable {α : Type} {map map' : Mapping α} {p p' : Participant α} {input output : Mesh α}
  {target marked : Mesh α} {added : Nat → Prop} {t : MeshRef}

/-- One mesh takes the place of another one that it only differs from in its marks. -/
theorem Attached.replaced (h : map.Attached p input output) (ht : p.mesh t = .ok target)
    (hmarks : target.Marks marked added) (hp' : p'.meshes = p.meshes.set t marked) :
    ∃ input' output', map.Attached p' input' output' ∧
      (input.SameGeometry input' ∧ input'.id = input.id) ∧
      (output.SameGeometry output' ∧ output'.id = output.id) := by
  have hplaced {ref : MeshRef} {m : Mesh α} (hm : p.mesh ref = .ok m) :
      ∃ m', p'.mesh ref = .ok m' ∧ m.SameGeometry m' ∧ m'.id = m.id := by
    have hget := Participant.mesh_eq_ok.1 hm
    by_cases href : t = ref
    · obtain rfl := href
      obtain rfl := Except.ok.inj (ht.symm.trans hm)
      have hlt := (List.getElem?_eq_some_iff.1 hget).1
      refine ⟨marked, Participant.mesh_eq_ok.2 ?_, hmarks.sameGeometry, hmarks.id_eq⟩
      rw [hp', List.getElem?_set_self hlt]
    · refine ⟨m, Participant.mesh_eq_ok.2 ?_, .refl m, rfl⟩
      rw [hp', List.getElem?_set_ne href, hget]
  obtain ⟨i, hi, hinput⟩ := h.inputAt
  obtain ⟨o, ho, houtput⟩ := h.outputAt
  obtain ⟨input', hinput', hinputSame⟩ := hplaced hinput
  obtain ⟨output', houtput', houtputSame⟩ := hplaced houtput
  exact ⟨input', output', ⟨⟨i, hi, hinput'⟩, ⟨o, ho, houtput'⟩⟩, hinputSame, houtputSame⟩

variable [Scalar α] [SearchOrder α] {table : Table α} {cache : Cache α}

/-- Once the table is there, tagging is marking by it. What was known of the table and of the mesh
that gets the marks is dropped. -/
theorem tagFirstRound_eq (h : map.Attached p input output)
    (hcompute : map.compute p = .ok ({ map with table := some table }, { p with cache })) :
    ∃ s t, map.direction = .ok (s, t) ∧
      p.mesh t = .ok (map.config.constraint.target input output) ∧
      map.tagFirstRound p =
        ((tagReferred (map.config.constraint.target input output) table).mapError .violation).map
          fun marked => ({ map with table := none },
            { meshes := p.meshes.set t marked
              cache := cache.clear (map.config.constraint.target input output).id }) := by
  obtain ⟨s, t, hdirection, -, ht⟩ := h.direction
  generalize map.config.constraint.target input output = target at ht
  refine ⟨s, t, hdirection, ht, ?_⟩
  have hbare : ({ map with table := some table } : Mapping α).direction = .ok (s, t) := hdirection
  have hmesh : Participant.mesh { p with cache } t = .ok target := ht
  simp only [tagFirstRound, hcompute, ok_bind, hbare, hmesh, mapError_ok, Option.getD_some]
  cases hmarked : tagReferred target table with
  | error => rfl
  | ok marked =>
    -- The mesh that is looked up to be dropped is the marked one, which has the same ID.
    have hplaced : Participant.mesh (Participant.setMesh { p with cache } t marked) t =
        .ok marked := Participant.mesh_setMesh hmesh
    rw [mapError_ok, ok_bind, clear, hbare]
    dsimp only
    rw [hplaced]
    dsimp only
    rw [(tagReferred_marks hmarked).id_eq]
    rfl

/-- If tagging succeeds, the table was computed and its vertices were marked. -/
theorem tagFirstRound_ok (h : map.Attached p input output)
    (hfresh : p.cache.Fresh (map.config.constraint.target input output))
    (htag : map.tagFirstRound p = .ok (map', p')) : ∃ table cache s t marked,
      map.compute p = .ok ({ map with table := some table }, { p with cache }) ∧
      map.direction = .ok (s, t) ∧
      p.mesh t = .ok (map.config.constraint.target input output) ∧
      (map.config.constraint.target input output).Marks marked table.Needs ∧
      map' = { map with table := none } ∧
      p' = { meshes := p.meshes.set t marked
             cache := cache.clear (map.config.constraint.target input output).id } := by
  obtain ⟨⟨computed, q⟩, hcompute, -⟩ := bind_ok htag
  obtain ⟨-, table, rfl, -⟩ := compute_fresh_ok h hfresh hcompute
  obtain ⟨_, _, _, _, -, -, -, rfl⟩ := compute_ok hcompute
  obtain ⟨s, t, hdirection, ht, heq⟩ := tagFirstRound_eq h hcompute
  rw [htag] at heq
  obtain ⟨marked, hmarked, hresult⟩ := map_eq_ok.1 heq.symm
  obtain ⟨rfl, rfl⟩ := Prod.mk.inj hresult
  exact ⟨table, _, s, t, marked, hcompute, hdirection, ht,
    tagReferred_marks (mapError_eq_ok.1 hmarked), rfl, rfl⟩

/-- A table that is computed again, after one of the meshes got its marks and what was known of it
was dropped, is the same one. -/
theorem compute_again (h : map.Attached p input output)
    (hfresh : p.cache.Fresh (map.config.constraint.target input output))
    (hcompute : map.compute p = .ok ({ map with table := some table }, { p with cache }))
    (ht : p.mesh t = .ok (map.config.constraint.target input output))
    (hmarks : (map.config.constraint.target input output).Marks marked added)
    (hp' : p' = { meshes := p.meshes.set t marked
                  cache := cache.clear (map.config.constraint.target input output).id }) :
    ∃ cache', ({ map with table := none } : Mapping α).compute p' =
      .ok ({ map with table := some table }, { p' with cache := cache' }) := by
  obtain ⟨hvertices, table', heq, htable⟩ := compute_fresh_ok h hfresh hcompute
  obtain rfl : table = table' := Option.some.inj (congrArg Mapping.table heq)
  obtain ⟨input', output', hattached, hinput, houtput⟩ :=
    h.replaced ht hmarks (congrArg Participant.meshes hp')
  have hstart := Constraint.start_rel hinput.1 houtput.1 map.config.constraint
  have htarget := Constraint.target_rel hinput.1 houtput.1 map.config.constraint
  have hid : (map.config.constraint.target input' output').id =
      (map.config.constraint.target input output).id :=
    Constraint.target_rel (R := fun m m' : Mesh α => m'.id = m.id) hinput.2 houtput.2 _
  have hattached' : ({ map with table := none } : Mapping α).Attached p' input' output' :=
    ⟨hattached.inputAt, hattached.outputAt⟩
  have hfresh' : p'.cache.Fresh (map.config.constraint.target input' output') := by
    rw [hp', ← hid]
    exact Cache.fresh_clear cache _
  obtain ⟨cache', hagain⟩ := compute_fresh hattached' hfresh'
  refine ⟨cache', hagain.trans ?_⟩
  rw [← tableOf_congr hstart htarget, htable, if_neg]
  · rfl
  · intro hempty
    simp only [Bool.and_eq_true, Bool.not_eq_true', List.isEmpty_iff,
      List.isEmpty_eq_false_iff] at hempty
    rw [← List.length_pos_iff, ← List.length_pos_iff, hstart.length_eq, htarget.length_eq]
      at hvertices
    exact hvertices (List.length_pos_iff.2 hempty.2) |>.ne' (List.length_eq_zero_iff.2 hempty.1)

end

/-! ## What the marks are good for -/

section
variable {row : Row ℝ} {u v : Vec ℝ} {dimension c : Nat} {D : ℝ}

theorem rows_short {m : Mesh ℝ} (h : m.Consistent) (p : Point ℝ) :
    Rows m p fun row => row.length ≤ 3 where
  vertex _ _ := (by decide : 1 ≤ 3)
  edge e he := by
    obtain ⟨a, b, heq⟩ := edgeRow_eq (h.ends e he) p
    refine ⟨_, heq, fun row hrow _ => ?_⟩
    obtain ⟨t, -, rfl⟩ := Option.map_eq_some_iff.1 hrow
    exact (by decide : 2 ≤ 3)
  triangle t ht := by
    obtain ⟨a, b, c, heq⟩ := triangleRow_eq (h.corners_lt ht) p
    refine ⟨_, heq, fun row hrow _ => ?_⟩
    obtain ⟨⟨u, v, w⟩, -, rfl⟩ := Option.map_eq_some_iff.1 hrow
    exact Nat.le_refl 3

theorem negligible_real : (negligible : ℝ) = 1 / 10 ^ 14 := by
  show (1e-14 : ℝ) = _
  norm_num

/-- An element with a weight that does not count adds little of a difference, and so does one with
any weight if there is no difference. -/
theorem abs_mul_sub_le {w x y : ℝ} (hagree : negligible < |w| → x = y) (hnear : |x - y| ≤ D) :
    |w * x - w * y| ≤ 1 / 10 ^ 14 * D := by
  have hD : 0 ≤ D := (abs_nonneg _).trans hnear
  by_cases hcounts : negligible < |w|
  · rw [hagree hcounts, sub_self, abs_zero]
    positivity
  · have hw : |w| ≤ 1 / 10 ^ 14 := negligible_real ▸ not_lt.1 hcounts
    rw [← mul_sub, abs_mul]
    exact mul_le_mul hw hnear (abs_nonneg _) (by positivity)

theorem abs_gathered_sub_le
    (hagree : ∀ e ∈ row, negligible < Scalar.abs e.weight →
      component u dimension e.vertex c = component v dimension e.vertex c)
    (hnear : ∀ e ∈ row, |component u dimension e.vertex c - component v dimension e.vertex c| ≤ D) :
    |gathered row u dimension c - gathered row v dimension c| ≤
      row.length * (1 / 10 ^ 14 * D) := by
  rw [gathered_eq, gathered_eq]
  induction row with
  | nil => simp
  | cons e row ih =>
    obtain ⟨he, hagree⟩ := List.forall_mem_cons.1 hagree
    obtain ⟨hefar, hnear⟩ := List.forall_mem_cons.1 hnear
    have hfirst := abs_mul_sub_le he hefar
    have hrest := ih hagree hnear
    rw [List.map_cons, List.map_cons, List.sum_cons, List.sum_cons, add_sub_add_comm,
      List.length_cons]
    calc _ ≤ 1 / 10 ^ 14 * D + row.length * (1 / 10 ^ 14 * D) :=
          (abs_add_le _ _).trans (add_le_add hfirst hrest)
      _ = (row.length + 1 : Nat) * (1 / 10 ^ 14 * D) := by push_cast; ring

end

/-- A field that a mapping is about to carry over. The mapping has certain settings, and its table
was computed from two meshes, or from meshes of the same geometry. -/
structure Upcoming (config : Config) (input output : Mesh ℝ) [SearchOrder ℝ] (later : Mapping ℝ)
    (q : Participant ℝ) (inputId outputId : DataId) (source : Field ℝ) : Prop where
  config : later.config = config
  upToDate : later.UpToDate input output
  matching : ∃ input' output' target, input.SameGeometry input' ∧ output.SameGeometry output' ∧
    later.Matching q inputId outputId input' output' source target

/-- Two fields agree on the marked vertices of a mesh, and are no further apart than `D` on the
others. -/
structure Agree (marked : Mesh ℝ) (D : ℝ) (u v : Field ℝ) : Prop where
  dimension : v.dimension = u.dimension
  nonneg : 0 ≤ D
  onMarked : ∀ i, marked.IsTagged i → ∀ c < u.dimension,
    component u.values u.dimension i c = component v.values u.dimension i c
  elsewhere : ∀ i < marked.vertices.length, ¬ marked.IsTagged i → ∀ c < u.dimension,
    |component u.values u.dimension i c - component v.values u.dimension i c| ≤ D

theorem Agree.near {marked : Mesh ℝ} {D : ℝ} {u v : Field ℝ} (h : Agree marked D u v) {i c : Nat}
    (hi : i < marked.vertices.length) (hc : c < u.dimension) :
    |component u.values u.dimension i c - component v.values u.dimension i c| ≤ D := by
  by_cases hmarked : marked.IsTagged i
  · rw [h.onMarked i hmarked c hc, sub_self, abs_zero]
    exact h.nonneg
  · exact h.elsewhere i hi hmarked c hc

/-- A table whose needs are marked makes close results of fields that agree on the marks. -/
theorem Agree.abs_component_sub_le {marked : Mesh ℝ} {D : ℝ} {u v : Field ℝ}
    (h : Agree marked D u v) {table : Table ℝ} (hshort : ∀ row ∈ table, row.length ≤ 3)
    (hrefers : ∀ row ∈ table, ∀ e ∈ row, e.vertex < marked.vertices.length)
    (hneeds : ∀ i, table.Needs i → marked.IsTagged i) {j c : Nat} (hj : j < table.length)
    (hc : c < u.dimension) (outputs outputs' : Nat) :
    |component (outputValues .consistent table u.values u.dimension outputs) u.dimension j c -
      component (outputValues .consistent table v.values u.dimension outputs') u.dimension j c| ≤
        3 / 10 ^ 14 * D := by
  have hmem : table[j] ∈ table := List.getElem_mem hj
  rw [component_consistent hj hc, component_consistent hj hc]
  have hrow := abs_gathered_sub_le
    (fun e (he : e ∈ table[j]) hcounts =>
      h.onMarked e.vertex (hneeds _ ⟨_, hmem, e, he, rfl, hcounts⟩) c hc)
    fun e he => h.near (hrefers _ hmem e he) hc
  have hlength : ((table[j]).length : ℝ) ≤ 3 := by exact_mod_cast hshort _ hmem
  have hsmall : 0 ≤ 1 / 10 ^ 14 * D := mul_nonneg (by positivity) h.nonneg
  calc _ ≤ (table[j]).length * (1 / 10 ^ 14 * D) := hrow
    _ ≤ 3 * (1 / 10 ^ 14 * D) := mul_le_mul_of_nonneg_right hlength hsmall
    _ = 3 / 10 ^ 14 * D := by ring

section
variable [SearchOrder ℝ] {map map' : Mapping ℝ} {p p' : Participant ℝ} {input output : Mesh ℝ}

/-- A consistent mapping carries over what is upcoming. -/
theorem Upcoming.yields {config : Config} {table : Table ℝ} {later : Mapping ℝ}
    {q : Participant ℝ} {inputId outputId : DataId} {u : Field ℝ}
    (h : Upcoming config input output later q inputId outputId u)
    (hconsistent : config.constraint = .consistent) (htable : later.table = some table)
    (hlength : table.length = output.vertices.length)
    (hrefers : ∀ row ∈ table, ∀ e ∈ row, e.vertex < input.vertices.length) :
    ∃ outputs, later.Yields q inputId outputId
      (outputValues .consistent table u.values u.dimension outputs) := by
  obtain ⟨input', output', target, hinput, houtput, hmatching⟩ := h.matching
  have hconstraint : later.config.constraint = .consistent := by rw [h.config, hconsistent]
  have hyields := hmatching.yields htable
    (by rw [hconstraint]; exact hlength.trans houtput.length_eq)
    (by rw [hconstraint]; exact hinput.length_eq ▸ hrefers)
  rw [hconstraint] at hyields
  exact ⟨_, hyields⟩

/-- What tagging has done. The marks that were added are those of the vertices that the table needs,
and the table is that of the two meshes: it could be computed before, can be computed again
afterwards, and is the one of every mapping of these settings that is up to date (`computed`,
`again`, `common`). Nothing else has changed: one mesh of the participant is another one, with more
marks, no table is held and the cache has no entry for the mesh. A consistent mapping carries over
any two fields that agree on the marked vertices, and the results are close (`carried`). -/
structure Tagged (map : Mapping ℝ) (p : Participant ℝ) (input output : Mesh ℝ) (table : Table ℝ)
    (marked : Mesh ℝ) (map' : Mapping ℝ) (p' : Participant ℝ) : Prop where
  computed : ∃ cache, map.compute p = .ok ({ map with table := some table }, { p with cache })
  common : ∀ later : Mapping ℝ, later.config = map.config → later.UpToDate input output →
    later.table = some table
  marks : (map.config.constraint.target input output).Marks marked table.Needs
  placed : ∃ s t, map.direction = .ok (s, t) ∧
    p.mesh t = .ok (map.config.constraint.target input output) ∧ p'.meshes = p.meshes.set t marked
  dropped : map' = { map with table := none }
  uncached : p'.cache.contains (map.config.constraint.target input output).id = false
  again : ∃ cache, map'.compute p' = .ok ({ map with table := some table }, { p' with cache })
  carried : map.config.constraint = .consistent → ∀ (later₁ later₂ : Mapping ℝ)
    (q₁ q₂ : Participant ℝ) (in₁ in₂ out₁ out₂ : DataId) (u v : Field ℝ) (D : ℝ),
    Upcoming map.config input output later₁ q₁ in₁ out₁ u →
    Upcoming map.config input output later₂ q₂ in₂ out₂ v → Agree marked D u v →
      ∃ us vs, later₁.Yields q₁ in₁ out₁ us ∧ later₂.Yields q₂ in₂ out₂ vs ∧
        us.length = output.vertices.length * u.dimension ∧
        vs.length = output.vertices.length * u.dimension ∧
        ∀ j < output.vertices.length, ∀ c < u.dimension,
          |component us u.dimension j c - component vs u.dimension j c| ≤ 3 / 10 ^ 14 * D

/-- When tagging succeeds, it has marked what is needed and nothing else, and that suffices. -/
theorem tagFirstRound_tagged [LawfulSearchOrder ℝ] (h : map.Attached p input output)
    (hfresh : p.cache.Fresh (map.config.constraint.target input output))
    (hconsistent : (map.config.constraint.target input output).Consistent)
    (htag : map.tagFirstRound p = .ok (map', p')) :
    ∃ table marked, Tagged map p input output table marked map' p' := by
  obtain ⟨table, cache, s, t, marked, hcompute, hdirection, ht, hmarks, rfl, rfl⟩ :=
    tagFirstRound_ok h hfresh htag
  obtain ⟨-, table', heq, htable⟩ := compute_fresh_ok h hfresh hcompute
  obtain rfl : table = table' := Option.some.inj (congrArg Mapping.table heq)
  have hcommon : ∀ later : Mapping ℝ, later.config = map.config → later.UpToDate input output →
      later.table = some table := by
    intro later hconfig hdate
    obtain ⟨-, table', hlater, htable'⟩ := hdate.table
    rw [hconfig, htable] at htable'
    rw [hlater, Except.ok.inj htable']
  refine ⟨table, marked, ⟨cache, hcompute⟩, hcommon, hmarks, ⟨s, t, hdirection, ht, rfl⟩, rfl,
    Cache.contains_clear cache _, compute_again h hfresh hcompute ht hmarks rfl,
    fun hgather later₁ later₂ q₁ q₂ in₁ in₂ out₁ out₂ u v D hu hv hagree => ?_⟩
  rw [hgather] at hconsistent hmarks htable
  have hrefers := Table.refersBelow_iff.1 (tableOf_within hconsistent htable)
  obtain ⟨total, htotal, hlength, hrows⟩ : ∃ total,
      tableOf map.config.method map.config.dimensions output input = .ok total ∧
        total.length = output.vertices.length ∧
        ∀ row ∈ total, row.length ≤ 3 ∨ input.vertices = [] ∧ row = [] :=
    tableOf_rows hconsistent (rows_short hconsistent) map.config.method map.config.dimensions
  obtain rfl : total = table := Except.ok.inj (htotal.symm.trans htable)
  have hshort : ∀ row ∈ total, row.length ≤ 3 := fun row hrow =>
    (hrows row hrow).elim id fun hnone => hnone.2 ▸ Nat.zero_le 3
  obtain ⟨outputs₁, hus⟩ := hu.yields hgather (hcommon _ hu.config hu.upToDate) hlength hrefers
  obtain ⟨outputs₂, hvs⟩ := hv.yields hgather (hcommon _ hv.config hv.upToDate) hlength hrefers
  rw [hagree.dimension] at hvs
  refine ⟨_, _, hus, hvs, by rw [length_consistent, hlength], by rw [length_consistent, hlength],
    fun j hj c hc => ?_⟩
  exact hagree.abs_component_sub_le hshort (by rw [hmarks.length_eq]; exact hrefers)
    (fun i hi => (hmarks.tagged i).2 (.inr hi)) (hlength ▸ hj) hc _ _

/-- Tagging succeeds as soon as there is something to map onto. -/
theorem tagFirstRound_total [LawfulSearchOrder ℝ] (h : map.Attached p input output)
    (hfresh : p.cache.Fresh (map.config.constraint.target input output))
    (hconsistent : (map.config.constraint.target input output).Consistent)
    (hne : (map.config.constraint.start input output).vertices ≠ [] →
      (map.config.constraint.target input output).vertices ≠ []) :
    ∃ map' p', map.tagFirstRound p = .ok (map', p') := by
  obtain ⟨table, cache, hcompute, -, hconvex⟩ := compute_total h hfresh hconsistent hne
  obtain ⟨_, _, -, -, htag⟩ := tagFirstRound_eq h hcompute
  obtain ⟨marked, hmarked⟩ := tagReferred_total
    (Table.refersBelow_iff.2 fun row hrow => (hconvex row hrow).refers)
  rw [hmarked] at htag
  exact ⟨_, _, htag⟩

end

/-! ## A vertex that is not needed -/

section

/-- Two vertices on an edge and a third one farther on, with a field. -/
noncomputable def strand (values : Vec ℝ) : Mesh ℝ :=
  { segment with
    vertices := segment.vertices ++ [{ id := 2, position := ⟨9, 0, 0⟩ }]
    fields := [⟨0, "heat", 2, values⟩] }

/-- The strand and the point beside its edge at one participant. -/
noncomputable def shore (values : Vec ℝ) : Participant ℝ := { meshes := [strand values, beside] }

theorem strand_consistent (values : Vec ℝ) : (strand values).Consistent where
  dimensions := .inl rfl
  flat _ v hv := by
    simp only [strand, segment, List.cons_append, List.nil_append, List.mem_cons, List.not_mem_nil,
      or_false] at hv
    rcases hv with rfl | rfl | rfl <;> rfl
  vertexIds := rfl
  edgeIds := rfl
  triangleIds := rfl
  ends := by simp [strand, segment]
  corners := by simp [strand, segment]

theorem strand_matching (table : Option (Table ℝ)) {values : Vec ℝ} (h : values.length = 6) :
    Matching { fromSegment with table } (shore values) 0 0 (strand values) beside
      ⟨0, "heat", 2, values⟩ ⟨0, "heat", 2, [0, 0]⟩ where
  inputAt := ⟨0, rfl, rfl⟩
  outputAt := ⟨1, rfl, rfl⟩
  sourceAt := rfl
  targetAt := rfl
  dimension := rfl
  sourceComplete := by rw [Mesh.Field.Complete, h]; rfl
  targetComplete := rfl

/-- The point lies beside the middle of the edge. -/
theorem tableOf_strand [SearchOrder ℝ] [LawfulSearchOrder ℝ] (values : Vec ℝ) :
    tableOf .nearestProjection 2 beside (strand values) = .ok [[⟨0, 2⁻¹⟩, ⟨1, 2⁻¹⟩]] := by
  have hparameter : Geometry.segmentParameter (⟨0, 1, 0⟩ : Point ℝ) ⟨-1, 0, 0⟩ ⟨1, 0, 0⟩ =
      some 2⁻¹ := by
    rw [Geometry.segmentParameter_eq]
    norm_num [Point.norm2, Point.dot_eq]
  have hrow : edgeRow (strand values) ⟨0, (0, 1)⟩ ⟨0, 1, 0⟩ =
      .ok (some [⟨0, 2⁻¹⟩, ⟨1, 2⁻¹⟩]) := by
    show Except.ok ((Geometry.segmentParameter _ _ _).map _) = _
    rw [hparameter]
    norm_num
  have hlocated : located .nearestProjection 2 (strand values) ⟨0, 1, 0⟩ =
      .ok [⟨0, 2⁻¹⟩, ⟨1, 2⁻¹⟩] := by
    show edgeOrVertexLocated (strand values) ⟨0, 1, 0⟩ = _
    rw [edgeOrVertexLocated,
      edgeLocated_only (strand_consistent values) rfl hrow (by simp [isInside])]
    rfl
  show [(⟨0, 1, 0⟩ : Point ℝ)].mapM _ = _
  rw [List.mapM_cons, hlocated]
  rfl

theorem strand_untagged (values : Vec ℝ) (i : Nat) : ¬ (strand values).IsTagged i := by
  rintro ⟨vertex, hvertex, htagged⟩
  have hmem := List.mem_of_getElem? hvertex
  simp only [strand, segment, List.cons_append, List.nil_append, List.mem_cons, List.not_mem_nil,
    or_false] at hmem
  rcases hmem with rfl | rfl | rfl <;> cases htagged

theorem needs_halves {i : Nat} :
    Table.Needs [[⟨0, 2⁻¹⟩, ⟨1, (2⁻¹ : ℝ)⟩]] i ↔ i = 0 ∨ i = 1 := by
  have hcounts : negligible < Scalar.abs (2⁻¹ : ℝ) := by
    show negligible < |(2⁻¹ : ℝ)|
    rw [negligible_real]
    norm_num
  rw [Table.Needs]
  simp [hcounts, eq_comm]

/-- Two fields that are the same on the edge, with the edge marked. -/
theorem agree_strand {marked : Mesh ℝ} (hlength : marked.vertices.length = 3)
    (hmarked : ∀ i, marked.IsTagged i ↔ i = 0 ∨ i = 1) :
    Agree marked 2 ⟨0, "heat", 2, [1, 0, 1, -1, 5, 5]⟩ ⟨0, "heat", 2, [1, 0, 1, -1, 7, 4]⟩ := by
  refine ⟨rfl, zero_le_two, fun i hi c hc => ?_, fun i hi hno c hc => ?_⟩
  · have hc : c < 2 := hc
    rcases (hmarked i).1 hi with rfl | rfl <;> interval_cases c <;> rfl
  · have hc : c < 2 := hc
    rw [hmarked] at hno
    obtain rfl : i = 2 := by omega
    interval_cases c <;> norm_num [component]

/-- The two ends of the edge are needed and the third vertex is not, so a field that differs there
by no more than two is carried over to a close result. -/
theorem tagFirstRound_tagged_strand : let _ : SearchOrder ℝ := .byIndex
    let fields : Vec ℝ × Vec ℝ := ([1, 0, 1, -1, 5, 5], [1, 0, 1, -1, 7, 4])
    ∃ map' p' table marked us vs,
      fromSegment.tagFirstRound (shore fields.1) = .ok (map', p') ∧
      Tagged fromSegment (shore fields.1) (strand fields.1) beside table marked map' p' ∧
      (∀ i, marked.IsTagged i ↔ i = 0 ∨ i = 1) ∧ p'.meshes = [marked, beside] ∧
      Yields { fromSegment with table := some table } (shore fields.1) 0 0 us ∧
      Yields { fromSegment with table := some table } (shore fields.2) 0 0 vs ∧
      ∀ c < 2, |component us 2 0 c - component vs 2 0 c| ≤ 3 / 10 ^ 14 * 2 := by
  intro _ fields
  have := byIndex_lawful
  have hattached : fromSegment.Attached (shore fields.1) (strand fields.1) beside :=
    (strand_matching none rfl).toAttached
  have hfresh : (shore fields.1).cache.Fresh (strand fields.1) := nofun
  have hconsistent := strand_consistent fields.1
  obtain ⟨map', p', htag⟩ := tagFirstRound_total hattached hfresh hconsistent
    (fun _ => List.cons_ne_nil _ _)
  obtain ⟨table, marked, htagged⟩ := tagFirstRound_tagged hattached hfresh hconsistent htag
  obtain ⟨cache, hcompute⟩ := htagged.computed
  have hdate : UpToDate { fromSegment with table := some table } (strand fields.1) beside :=
    ⟨_, _, _, _, _, hattached, hfresh, .refl _, .refl _, hcompute⟩
  have htable : table = [[⟨0, 2⁻¹⟩, ⟨1, 2⁻¹⟩]] := by
    obtain ⟨-, table', heq, htable'⟩ := hdate.table
    obtain rfl : table = table' := Option.some.inj heq
    exact Except.ok.inj (htable'.symm.trans (tableOf_strand _))
  have hmarked : ∀ i, marked.IsTagged i ↔ i = 0 ∨ i = 1 := fun i =>
    (htagged.marks.tagged i).trans ((or_iff_right (strand_untagged _ i)).trans
      (htable ▸ needs_halves))
  have hupcoming : ∀ {values : Vec ℝ}, values.length = 6 →
      Upcoming fromSegment.config (strand fields.1) beside
        { fromSegment with table := some table } (shore values) 0 0 ⟨0, "heat", 2, values⟩ :=
    fun {values} h => ⟨rfl, hdate, strand values, beside, _, ⟨rfl, rfl, rfl⟩, .refl _,
      strand_matching _ h⟩
  obtain ⟨s, t, hdirection, -, hmeshes⟩ := htagged.placed
  obtain ⟨-, rfl⟩ := Prod.mk.inj (Except.ok.inj hdirection)
  obtain ⟨us, vs, hus, hvs, -, -, hnear⟩ := htagged.carried rfl _ _ _ _ _ _ _ _ _ _ 2
    (hupcoming rfl) (hupcoming rfl) (agree_strand htagged.marks.length_eq hmarked)
  exact ⟨map', p', table, marked, us, vs, htag, htagged, hmarked, hmeshes, hus, hvs,
    hnear 0 Nat.one_pos⟩

end

end Mapping

end Cosimulation

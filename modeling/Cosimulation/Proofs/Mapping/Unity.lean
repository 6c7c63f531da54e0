import Cosimulation.Proofs.Mapping.Transfer

/-!
# Partition of unity

On real scalars the rows of a table are convex combinations, whatever the meshes look like
(`compute_total`). For a mapping that gathers, this puts every value between the extremes of the
values it is made of (`Row.Convex.le_gathered`, `Row.Convex.gathered_le`); for a mapping that
scatters, the weights with which a value is handed out add up to one, so that totals are kept
(`sum_scattered`).

`compute_convex` is the whole way from two meshes to the mapped field: the table can be computed,
its rows are convex, and every field that matches is carried over with what the mapping `Keeps` of
it.
-/

namespace Cosimulation.Mapping

open Finset Search

/-- A component of the values at the first vertices. -/
def column {α : Type} [Scalar α] (values : Vec α) (dimension count c : Nat) : Vec α :=
  (List.range count).map fun v => component values dimension v c

/-- What a mapping keeps of a component of a field: a consistent mapping stays between its extremes
and reproduces a constant, a conservative mapping keeps its total. -/
def Keeps (constraint : Constraint) (before after : Vec ℝ) : Prop :=
  match constraint with
  | .consistent =>
    (∀ y ∈ after, Vec.smallest before ≤ y ∧ y ≤ Vec.largest before) ∧
      ∀ k, (∀ x ∈ before, x = k) → ∀ y ∈ after, y = k
  | .conservative => Vec.sum after = Vec.sum before

section
variable {count dimension c : Nat} {row : Row ℝ} {table : Table ℝ} {values : Vec ℝ}

theorem mem_column {x : ℝ} :
    x ∈ column values dimension count c ↔ ∃ v < count, component values dimension v c = x := by
  simp [column]

theorem sum_column : Vec.sum (column values dimension count c) =
    ∑ v ∈ range count, component values dimension v c :=
  List.sum_eq_foldl.symm

/-! ## Convex rows -/

/-- A convex combination is not below a bound of what is combined. -/
theorem Row.Convex.le_gathered (h : Row.Convex count row) {lo : ℝ}
    (hlo : ∀ v < count, lo ≤ component values dimension v c) :
    lo ≤ gathered row values dimension c := by
  rw [gathered_eq]
  calc lo = (row.map fun e => e.weight * lo).sum := by
        rw [List.sum_map_mul_right, h.total, one_mul]
    _ ≤ (row.map fun e => e.weight * component values dimension e.vertex c).sum :=
        List.sum_le_sum fun e he =>
          mul_le_mul_of_nonneg_left (hlo e.vertex (h.refers e he)) (h.nonneg e he)

/-- A convex combination is not above a bound of what is combined. -/
theorem Row.Convex.gathered_le (h : Row.Convex count row) {hi : ℝ}
    (hhi : ∀ v < count, component values dimension v c ≤ hi) :
    gathered row values dimension c ≤ hi := by
  rw [gathered_eq]
  calc (row.map fun e => e.weight * component values dimension e.vertex c).sum
      ≤ (row.map fun e => e.weight * hi).sum :=
        List.sum_le_sum fun e he =>
          mul_le_mul_of_nonneg_left (hhi e.vertex (h.refers e he)) (h.nonneg e he)
    _ = hi := by rw [List.sum_map_mul_right, h.total, one_mul]

/-- Scattering hands out every value once. -/
theorem sum_scattered (h : ∀ row ∈ table, Row.Affine count row) :
    ∑ v ∈ range count, scattered table values dimension v c =
      ∑ i ∈ range table.length, component values dimension i c := by
  have hone : ∀ row ∈ table, ∑ v ∈ range count, Row.weightAt row v = 1 := fun row hrow => by
    simpa [(h row hrow).total] using sum_weightAt (h row hrow).refers fun _ => 1
  simp only [scattered_eq_sum]
  rw [sum_comm, Finset.sum_range]
  refine sum_congr rfl fun i _ => ?_
  rw [← sum_mul, hone table[i] (List.getElem_mem i.isLt), one_mul]

/-- What a table of convex rows keeps of a field. -/
theorem keeps_outputValues {constraint : Constraint} {inputs outputs : Nat}
    (hlength : table.length = constraint.start inputs outputs)
    (hconvex : ∀ row ∈ table, Row.Convex (constraint.target inputs outputs) row)
    (hc : c < dimension) :
    Keeps constraint (column values dimension inputs c)
      (column (outputValues constraint table values dimension outputs) dimension outputs c) := by
  cases constraint with
  | consistent =>
    have hrow : ∀ y ∈ column (outputValues .consistent table values dimension outputs) dimension
        outputs c, ∃ row ∈ table, y = gathered row values dimension c := by
      intro y hy
      obtain ⟨v, hv, rfl⟩ := mem_column.1 hy
      have hv : v < table.length := hlength ▸ hv
      exact ⟨table[v], List.getElem_mem hv, component_consistent hv hc⟩
    refine ⟨fun y hy => ?_, fun k hk y hy => ?_⟩
    · obtain ⟨row, hmem, rfl⟩ := hrow y hy
      exact ⟨(hconvex row hmem).le_gathered fun v hv => smallest_le (mem_column.2 ⟨v, hv, rfl⟩),
        (hconvex row hmem).gathered_le fun v hv => le_largest (mem_column.2 ⟨v, hv, rfl⟩)⟩
    · obtain ⟨row, hmem, rfl⟩ := hrow y hy
      have hvalue : ∀ v < inputs, component values dimension v c = k := fun v hv =>
        hk _ (mem_column.2 ⟨v, hv, rfl⟩)
      exact le_antisymm ((hconvex row hmem).gathered_le fun v hv => (hvalue v hv).le)
        ((hconvex row hmem).le_gathered fun v hv => (hvalue v hv).ge)
  | conservative =>
    show Vec.sum _ = Vec.sum _
    rw [sum_column, sum_column,
      sum_congr rfl fun v hv => component_conservative (mem_range.1 hv) hc]
    refine (sum_scattered fun row hrow => (hconvex row hrow).toAffine).trans ?_
    rw [hlength]
    rfl

/-! ## From meshes to fields -/

/-- What a table of convex rows keeps of a field that matches. -/
theorem Matching.keeps {map : Mapping ℝ} {q : Participant ℝ} {inputId outputId : DataId}
    {input output : Mesh ℝ} {source target : Field ℝ}
    (h : map.Matching q inputId outputId input output source target)
    (htable : map.table = some table)
    (hlength : table.length = (map.config.constraint.start input output).vertices.length)
    (hconvex : ∀ row ∈ table,
      Row.Convex (map.config.constraint.target input output).vertices.length row) :
    ∃ values, map.Yields q inputId outputId values ∧
      values.length = output.vertices.length * source.dimension ∧
      ∀ c < source.dimension, Keeps map.config.constraint
        (column source.values source.dimension input.vertices.length c)
        (column values source.dimension output.vertices.length c) := by
  have hyields := h.yields htable hlength fun row hrow => (hconvex row hrow).refers
  refine ⟨_, hyields, ?_⟩
  cases hconstraint : map.config.constraint with
  | consistent =>
    rw [hconstraint] at hlength hconvex
    exact ⟨length_consistent.trans (by rw [hlength]; rfl),
      fun c hc => keeps_outputValues hlength hconvex hc⟩
  | conservative =>
    rw [hconstraint] at hlength hconvex
    exact ⟨length_conservative, fun c hc => keeps_outputValues hlength hconvex hc⟩

end

/-- From any mesh to a mesh in order that has vertices, a table can be computed. It has a convex row
for every vertex, and as long as the meshes keep their numbers of vertices it carries over every
field that matches, in the way the constraint asks for. -/
theorem compute_convex [SearchOrder ℝ] [LawfulSearchOrder ℝ] {map : Mapping ℝ} {p : Participant ℝ}
    {input output : Mesh ℝ} (hattached : map.Attached p input output)
    (hfresh : p.cache.Fresh (map.config.constraint.target input output))
    (hconsistent : (map.config.constraint.target input output).Consistent)
    (hvertices : (map.config.constraint.start input output).vertices ≠ [] →
      (map.config.constraint.target input output).vertices ≠ []) :
    ∃ table cache,
      map.compute p = .ok ({ map with table := some table }, { p with cache }) ∧
      table.length = (map.config.constraint.start input output).vertices.length ∧
      (∀ row ∈ table,
        Row.Convex (map.config.constraint.target input output).vertices.length row) ∧
      ∀ {q : Participant ℝ} {inputId outputId : DataId} {input' output' : Mesh ℝ}
        {source target : Field ℝ},
        Matching { map with table := some table } q inputId outputId input' output' source target →
        input'.vertices.length = input.vertices.length →
        output'.vertices.length = output.vertices.length →
        ∃ values, Yields { map with table := some table } q inputId outputId values ∧
          values.length = output.vertices.length * source.dimension ∧
          ∀ c < source.dimension, Keeps map.config.constraint
            (column source.values source.dimension input.vertices.length c)
            (column values source.dimension output.vertices.length c) := by
  obtain ⟨table, cache, hcompute, hlength, hconvex⟩ :=
    compute_total hattached hfresh hconsistent hvertices
  refine ⟨table, cache, hcompute, hlength, hconvex, fun {_ _ _ input' output' _ _} hmatching
    hinput houtput => ?_⟩
  have hstart := Constraint.start_rel (R := fun m m' : Mesh ℝ =>
    m.vertices.length = m'.vertices.length) hinput houtput map.config.constraint
  have htarget := Constraint.target_rel (R := fun m m' : Mesh ℝ =>
    m.vertices.length = m'.vertices.length) hinput houtput map.config.constraint
  rw [← hinput, ← houtput]
  exact hmatching.keeps rfl (hlength.trans hstart.symm) (htarget ▸ hconvex)

/-- A segment in the plane, with a field to map and a field to map onto. -/
noncomputable def segment : Mesh ℝ where
  id := 0
  name := "segment"
  dimensions := 2
  vertices := [{ id := 0, position := ⟨-1, 0, 0⟩ }, { id := 1, position := ⟨1, 0, 0⟩ }]
  edges := [⟨0, (0, 1)⟩]
  fields := [⟨0, "heat", 2, [1, 0, 1, -1]⟩, ⟨1, "force", 2, [0, 0, 0, 0]⟩]

/-- A point beside the segment, likewise. -/
noncomputable def beside : Mesh ℝ where
  id := 1
  name := "beside"
  dimensions := 2
  vertices := [{ id := 0, position := ⟨0, 1, 0⟩ }]
  fields := [⟨0, "heat", 2, [0, 0]⟩, ⟨1, "force", 2, [1, -1]⟩]

/-- The segment and the point at one participant. -/
noncomputable def neighbours : Participant ℝ := { meshes := [segment, beside] }

/-- The values on the segment, for the point. -/
def fromSegment : Mapping ℝ :=
  { config := { dimensions := 2 }, input := some 0, output := some 1 }

theorem segment_consistent : segment.Consistent where
  dimensions := .inl rfl
  flat _ v hv := by
    simp only [segment, List.mem_cons, List.not_mem_nil, or_false] at hv
    rcases hv with rfl | rfl <;> rfl
  vertexIds := rfl
  edgeIds := rfl
  triangleIds := rfl
  ends := by simp [segment]
  corners := by simp [segment]

theorem fromSegment_matching (table : Option (Table ℝ)) (cache : Cache ℝ) :
    Matching { fromSegment with table } { neighbours with cache } 0 0 segment beside
      ⟨0, "heat", 2, [1, 0, 1, -1]⟩ ⟨0, "heat", 2, [0, 0]⟩ where
  inputAt := ⟨0, rfl, rfl⟩
  outputAt := ⟨1, rfl, rfl⟩
  sourceAt := rfl
  targetAt := rfl
  dimension := rfl
  sourceComplete := rfl
  targetComplete := rfl

theorem compute_convex_beside : let _ : SearchOrder ℝ := .byIndex
    ∃ table cache values,
      fromSegment.compute neighbours =
        .ok ({ fromSegment with table := some table }, { neighbours with cache }) ∧
      table.length = 1 ∧ (∀ row ∈ table, Row.Convex 2 row) ∧
      Yields { fromSegment with table := some table } { neighbours with cache } 0 0 values ∧
      component values 2 0 0 = 1 := by
  intro _
  have := byIndex_lawful
  have hattached : fromSegment.Attached neighbours segment beside :=
    (fromSegment_matching none {}).toAttached
  obtain ⟨table, cache, hcompute, hlength, hconvex, hkeeps⟩ :=
    compute_convex hattached (show neighbours.cache.Fresh segment from nofun) segment_consistent
      (show beside.vertices ≠ [] → segment.vertices ≠ [] from fun _ => List.cons_ne_nil _ _)
  obtain ⟨values, hyields, -, hvalues⟩ :=
    hkeeps (fromSegment_matching (some table) cache) rfl rfl
  refine ⟨table, cache, values, hcompute, hlength, hconvex, hyields, ?_⟩
  refine (hvalues 0 (by decide)).2 1 ?_ _ (mem_column.2 ⟨0, by decide, rfl⟩)
  intro x hx
  obtain ⟨v, hv, rfl⟩ := mem_column.1 hx
  obtain rfl | rfl : v = 0 ∨ v = 1 := by
    have : v < 2 := hv
    omega
  · rfl
  · rfl

end Cosimulation.Mapping

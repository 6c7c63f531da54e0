import Cosimulation.Proofs.Mapping.Unity

/-!
# Adjoint mappings

A consistent mapping from a mesh to another one and a conservative mapping back have the same table,
computed from the vertices of the other mesh on the first (`UpToDate.common_table`): the one reads
it by rows and the other by columns. So they are adjoint: the product of a mapped field with a field
on the other mesh is the product of the field with what that one is mapped back to
(`dot_outputValues`, `yields_adjoint`). The two sides add up the same terms, one for every component
of every vertex and every weight, and only the order of the summation differs.
-/

namespace Cosimulation.Mapping

open Finset Search

/-- The table of a mapping was computed, with search trees that were up to date, from meshes of the
same geometry. -/
def UpToDate {α : Type} [Scalar α] [SearchOrder α] (map : Mapping α) (input output : Mesh α) :
    Prop :=
  ∃ (before : Mapping α) (p p' : Participant α) (input₀ output₀ : Mesh α),
    before.Attached p input₀ output₀ ∧
    p.cache.Fresh (before.config.constraint.target input₀ output₀) ∧
    input₀.SameGeometry input ∧ output₀.SameGeometry output ∧
    before.compute p = .ok (map, p')

/-- A mapping that is up to date has the table of the two meshes. -/
theorem UpToDate.table {α : Type} [Scalar α] [SearchOrder α] {map : Mapping α}
    {input output : Mesh α} (h : map.UpToDate input output) :
    ((map.config.constraint.start input output).vertices ≠ [] →
      (map.config.constraint.target input output).vertices ≠ []) ∧
    ∃ table, map.table = some table ∧
      tableOf map.config.method map.config.dimensions (map.config.constraint.start input output)
        (map.config.constraint.target input output) = .ok table := by
  obtain ⟨before, p, p', input₀, output₀, hattached, hfresh, hinput, houtput, hcompute⟩ := h
  obtain ⟨hvertices, table, rfl, htable⟩ := compute_fresh_ok hattached hfresh hcompute
  have hstart := Constraint.start_rel hinput houtput before.config.constraint
  have htarget := Constraint.target_rel hinput houtput before.config.constraint
  refine ⟨?_, table, rfl, (tableOf_congr hstart htarget _ _).symm.trans htable⟩
  rw [← List.length_pos_iff, ← List.length_pos_iff] at hvertices ⊢
  rwa [hstart.length_eq, htarget.length_eq] at hvertices

/-- Gathering and scattering by one table are adjoint. -/
theorem dot_outputValues {table : Table ℝ} {count dimension outputs : Nat} {u v : Vec ℝ}
    (hrefers : ∀ row ∈ table, ∀ e ∈ row, e.vertex < count) (hu : u.length = count * dimension)
    (hv : v.length = table.length * dimension) :
    Vec.dot (outputValues .consistent table u dimension outputs) v =
      Vec.dot u (outputValues .conservative table v dimension count) := by
  calc Vec.dot (outputValues .consistent table u dimension outputs) v
      = ∑ i : Fin table.length, ∑ c ∈ range dimension,
          (∑ a ∈ range count, Row.weightAt table[i] a * component u dimension a c) *
            component v dimension i c := by
        rw [dot_eq_sum length_consistent hv, Finset.sum_range]
        refine sum_congr rfl fun i _ => sum_congr rfl fun c hc => ?_
        rw [component_consistent i.isLt (mem_range.1 hc),
          gathered_eq_sum (hrefers _ (List.getElem_mem i.isLt))]
        rfl
    _ = ∑ a ∈ range count, ∑ c ∈ range dimension, component u dimension a c *
          ∑ i : Fin table.length, Row.weightAt table[i] a * component v dimension i c := by
        simp only [sum_mul, mul_sum]
        rw [sum_congr rfl fun i _ => sum_comm, sum_comm]
        refine sum_congr rfl fun a _ => sum_comm.trans ?_
        exact sum_congr rfl fun c _ => sum_congr rfl fun i _ => by ring
    _ = Vec.dot u (outputValues .conservative table v dimension count) := by
        rw [dot_eq_sum hu length_conservative]
        refine sum_congr rfl fun a ha => sum_congr rfl fun c hc => ?_
        rw [component_conservative (mem_range.1 ha) (mem_range.1 hc), scattered_eq_sum]

section
variable [SearchOrder ℝ] [LawfulSearchOrder ℝ] {there back : Mapping ℝ} {a b a' b' : Mesh ℝ}

/-- A consistent mapping from `a` to `b` and a conservative one from `b` to `a` have one table: both
start from `b`. -/
theorem UpToDate.common_table (hthere : there.config.constraint = .consistent)
    (hback : back.config.constraint = .conservative)
    (hmethod : there.config.method = back.config.method)
    (hdimensions : there.config.dimensions = back.config.dimensions) (hconsistent : a.Consistent)
    (ha : a.SameGeometry a') (hb : b.SameGeometry b') (hthereTable : there.UpToDate a b)
    (hbackTable : back.UpToDate b' a') :
    ∃ table, there.table = some table ∧ back.table = some table ∧
      table.length = b.vertices.length ∧ ∀ row ∈ table, Row.Convex a.vertices.length row := by
  obtain ⟨hvertices, table, htable, heq⟩ := hthereTable.table
  obtain ⟨-, table', htable', heq'⟩ := hbackTable.table
  rw [hthere] at hvertices heq
  rw [hback, ← hmethod, ← hdimensions] at heq'
  have hsame : tableOf there.config.method there.config.dimensions b a = .ok table' :=
    (tableOf_congr hb ha _ _).trans heq'
  obtain ⟨total, htotal, hlength, hconvex⟩ := tableOf_total hconsistent hvertices
    there.config.method there.config.dimensions
  obtain rfl : total = table := Except.ok.inj (htotal.symm.trans heq)
  obtain rfl : total = table' := Except.ok.inj (htotal.symm.trans hsame)
  exact ⟨total, htable, htable', hlength, hconvex⟩

/-- A consistent mapping from `a` to `b` and a conservative one from `b` to `a` are adjoint. -/
theorem yields_adjoint {p q : Participant ℝ} {uId xId vId yId : DataId} {u x v y : Field ℝ}
    (hthere : there.config.constraint = .consistent)
    (hback : back.config.constraint = .conservative)
    (hmethod : there.config.method = back.config.method)
    (hdimensions : there.config.dimensions = back.config.dimensions) (hconsistent : a.Consistent)
    (ha : a.SameGeometry a') (hb : b.SameGeometry b') (hthereTable : there.UpToDate a b)
    (hbackTable : back.UpToDate b' a') (hu : there.Matching p uId xId a b u x)
    (hv : back.Matching q vId yId b' a' v y) (hdimension : u.dimension = v.dimension) :
    ∃ mapped returned, there.Yields p uId xId mapped ∧ back.Yields q vId yId returned ∧
      mapped.length = v.values.length ∧ returned.length = u.values.length ∧
      Vec.dot mapped v.values = Vec.dot u.values returned := by
  obtain ⟨table, htable, htable', hlength, hconvex⟩ := UpToDate.common_table hthere hback hmethod
    hdimensions hconsistent ha hb hthereTable hbackTable
  have hrefers : ∀ row ∈ table, ∀ e ∈ row, e.vertex < a.vertices.length := fun row hrow =>
    (hconvex row hrow).refers
  have hmapped := hu.yields htable (by rw [hthere]; exact hlength) (by rw [hthere]; exact hrefers)
  have hreturned := hv.yields htable' (by rw [hback]; exact hlength.trans hb.length_eq)
    (by rw [hback]; exact ha.length_eq ▸ hrefers)
  rw [hthere] at hmapped
  rw [hback, ← ha.length_eq, ← hdimension] at hreturned
  have hulength := hu.sourceComplete.length_eq
  have hvlength : v.values.length = table.length * u.dimension := by
    rw [hv.sourceComplete.length_eq, hlength, hb.length_eq, hdimension]
  exact ⟨_, _, hmapped, hreturned, length_consistent.trans hvlength.symm,
    length_conservative.trans hulength.symm, dot_outputValues hrefers hulength hvlength⟩

end

/-- What was mapped from the segment, back onto it. -/
def toSegment : Mapping ℝ :=
  { config := { constraint := .conservative, dimensions := 2 }, input := some 1, output := some 0 }

theorem toSegment_matching (table : Option (Table ℝ)) :
    Matching { toSegment with table } neighbours 1 1 beside segment
      ⟨1, "force", 2, [1, -1]⟩ ⟨1, "force", 2, [0, 0, 0, 0]⟩ where
  inputAt := ⟨1, rfl, rfl⟩
  outputAt := ⟨0, rfl, rfl⟩
  sourceAt := rfl
  targetAt := rfl
  dimension := rfl
  sourceComplete := rfl
  targetComplete := rfl

theorem yields_adjoint_beside : let _ : SearchOrder ℝ := .byIndex
    ∃ there back mapped returned,
      UpToDate { fromSegment with table := some there } segment beside ∧
      UpToDate { toSegment with table := some back } beside segment ∧
      Yields { fromSegment with table := some there } neighbours 0 0 mapped ∧
      Yields { toSegment with table := some back } neighbours 1 1 returned ∧
      Vec.dot mapped [1, -1] = Vec.dot [1, 0, 1, -1] returned := by
  intro _
  have := byIndex_lawful
  have hvertices : beside.vertices ≠ [] → segment.vertices ≠ [] := fun _ => List.cons_ne_nil _ _
  have hfresh : neighbours.cache.Fresh segment := nofun
  have hthere : fromSegment.Attached neighbours segment beside :=
    (fromSegment_matching none {}).toAttached
  have hback : toSegment.Attached neighbours beside segment := (toSegment_matching none).toAttached
  obtain ⟨there, _, hthereTable, -⟩ := compute_total hthere hfresh segment_consistent hvertices
  obtain ⟨back, _, hbackTable, -⟩ := compute_total hback hfresh segment_consistent hvertices
  have hthereDate : UpToDate { fromSegment with table := some there } segment beside :=
    ⟨fromSegment, neighbours, _, segment, beside, hthere, hfresh, .refl _, .refl _, hthereTable⟩
  have hbackDate : UpToDate { toSegment with table := some back } beside segment :=
    ⟨toSegment, neighbours, _, beside, segment, hback, hfresh, .refl _, .refl _, hbackTable⟩
  obtain ⟨mapped, returned, hmapped, hreturned, -, -, hdot⟩ := yields_adjoint (by rfl) (by rfl)
    (by rfl) (by rfl) segment_consistent (.refl _) (.refl _) hthereDate hbackDate
    (fromSegment_matching (some there) {}) (toSegment_matching (some back)) rfl
  exact ⟨there, back, mapped, returned, hthereDate, hbackDate, hmapped, hreturned, hdot⟩

end Cosimulation.Mapping

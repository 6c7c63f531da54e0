import Cosimulation.Mapping.Basic
import Cosimulation.Proofs.Mapping.Rows

/-!
# The table of two meshes

A mesh index that is fresh answers like the mesh, so the rows that are located with it are the rows
among the shapes of the mesh as they are (`locate_fresh`), and what it keeps for the next point is
fresh again (`locateAll_fresh`). The table that is computed with a fresh index is therefore a
function of the two meshes, `tableOf` (`compute_fresh`), and of their geometry alone
(`tableOf_congr`).

On real scalars this table can be computed as soon as there is a vertex to map onto, and its rows
are convex (`compute_total`).
-/

namespace Cosimulation

/-- Two meshes have the same vertices, edges and triangles in the same places. -/
structure Mesh.SameGeometry {α : Type} (m m' : Mesh α) : Prop where
  vertices : m.vertices.map Vertex.place = m'.vertices.map Vertex.place
  edges : m.edges = m'.edges
  triangles : m.triangles = m'.triangles

/-- The mesh a mapping starts from, of its input and output mesh. -/
def Constraint.start {β : Type} : Constraint → (input output : β) → β
  | .consistent, _, output => output
  | .conservative, input, _ => input

/-- The mesh the rows of a mapping refer to, of its input and output mesh. -/
def Constraint.target {β : Type} : Constraint → (input output : β) → β
  | .consistent, input, _ => input
  | .conservative, _, output => output

section
variable {β : Type} {R : β → β → Prop} {input output input' output' : β}

theorem Constraint.start_rel (hinput : R input input') (houtput : R output output') :
    ∀ c : Constraint, R (c.start input output) (c.start input' output')
  | .consistent => houtput
  | .conservative => hinput

theorem Constraint.target_rel (hinput : R input input') (houtput : R output output') :
    ∀ c : Constraint, R (c.target input output) (c.target input' output')
  | .consistent => hinput
  | .conservative => houtput

end

namespace Mapping

open Search

section
variable {α : Type} [Scalar α] [SearchOrder α] {m : Mesh α} {i : MeshIndex α}

/-! ## With a fresh index -/

theorem locateVertex_fresh (h : i.Fresh m) (p : Point α) :
    ∃ i', i'.Fresh m ∧ locateVertex m i p = (vertexLocated m p, i') := by
  obtain ⟨i', hi', htree⟩ := h.forVertices
  refine ⟨i', hi', ?_⟩
  unfold locateVertex vertexLocated
  rw [htree]
  dsimp only
  cases nearestPoints (vertexTree m) p 1 <;> rfl

/-- A search with a tree that carries an index along is the search, with the index beside it. -/
theorem bind_beside {ε σ ρ ι : Type} (tree : Except ε σ) (i : ι) (search : σ → Except ε ρ) :
    ((tree.map fun t => (t, i)) >>= fun (t, i) => do return (← search t, i)) =
      (tree >>= search).map fun r => (r, i) := by
  cases tree with
  | error v => rfl
  | ok t =>
    show (search t >>= _) = Except.map _ (search t)
    cases search t <;> rfl

theorem locateTriangle_fresh (h : i.Fresh m) (p : Point α) :
    ∃ i', i'.Fresh m ∧ locateTriangle m i p = (triangleLocated m p).map fun r => (r, i') := by
  obtain ⟨i', hi', htree⟩ := h.forTriangles
  refine ⟨i', hi', ?_⟩
  rw [locateTriangle, triangleLocated, htree]
  exact bind_beside (triangleTree m) i' fun t =>
    firstInside (rowOnTriangle m p) (nearestTriangles t p candidates)

theorem locateEdge_fresh (h : i.Fresh m) (p : Point α) :
    ∃ i', i'.Fresh m ∧ locateEdge m i p = (edgeLocated m p).map fun r => (r, i') := by
  obtain ⟨i', hi', htree⟩ := h.forEdges
  refine ⟨i', hi', ?_⟩
  rw [locateEdge, edgeLocated, htree]
  exact bind_beside (edgeTree m) i' fun t =>
    firstInside (rowOnEdge m p) (nearestSegments t p candidates)

theorem locateEdgeOrVertex_fresh (h : i.Fresh m) (p : Point α) : ∃ i', i'.Fresh m ∧
    locateEdgeOrVertex m i p = (edgeOrVertexLocated m p).map fun row => (row, i') := by
  obtain ⟨i₁, hi₁, hedge⟩ := locateEdge_fresh h p
  obtain ⟨i₂, hi₂, hvertex⟩ := locateVertex_fresh hi₁ p
  rw [locateEdgeOrVertex, edgeOrVertexLocated, hedge]
  cases edgeLocated m p with
  | error v => exact ⟨i₁, hi₁, rfl⟩
  | ok r =>
    cases r with
    | some row => exact ⟨i₁, hi₁, rfl⟩
    | none => exact ⟨i₂, hi₂, congrArg Except.ok hvertex⟩

/-- With a fresh index, the row of a point is that on the mesh as it is. -/
theorem locate_fresh (h : i.Fresh m) (method : Method) (dimensions : Nat) (p : Point α) :
    ∃ i', i'.Fresh m ∧ locate method dimensions m i p =
      (located method dimensions m p).map fun row => (row, i') := by
  cases method with
  | nearestNeighbor =>
    obtain ⟨i', hi', hvertex⟩ := locateVertex_fresh h p
    exact ⟨i', hi', congrArg Except.ok hvertex⟩
  | nearestProjection =>
    unfold locate located
    dsimp only
    by_cases hd : dimensions = 3
    · rw [if_pos hd, if_pos hd]
      obtain ⟨i₁, hi₁, htriangle⟩ := locateTriangle_fresh h p
      obtain ⟨i₂, hi₂, hrest⟩ := locateEdgeOrVertex_fresh hi₁ p
      rw [htriangle]
      cases triangleLocated m p with
      | error v => exact ⟨i₁, hi₁, rfl⟩
      | ok r =>
        cases r with
        | some row => exact ⟨i₁, hi₁, rfl⟩
        | none => exact ⟨i₂, hi₂, hrest⟩
    · rw [if_neg hd, if_neg hd]
      exact locateEdgeOrVertex_fresh h p

theorem locateAll_fresh (method : Method) (dimensions : Nat) : ∀ (ps : List (Point α))
    {i : MeshIndex α}, i.Fresh m → ∃ i', i'.Fresh m ∧ locateAll method dimensions m i ps =
      (ps.mapM (located method dimensions m)).map fun rows => (rows, i') := by
  intro ps
  induction ps with
  | nil => exact fun {i} h => ⟨i, h, rfl⟩
  | cons p ps ih =>
    intro i h
    obtain ⟨i₁, hi₁, hp⟩ := locate_fresh h method dimensions p
    obtain ⟨i₂, hi₂, hps⟩ := ih hi₁
    rw [locateAll, hp, List.mapM_cons]
    cases located method dimensions m p with
    | error v => exact ⟨i₁, hi₁, rfl⟩
    | ok row =>
      refine ⟨i₂, hi₂, ?_⟩
      show (locateAll _ _ _ _ _ >>= _) = Except.map _ (List.mapM _ _ >>= _)
      rw [hps]
      cases ps.mapM (located method dimensions m) <;> rfl

/-! ## The table of two meshes -/

/-- The rows of the vertices of one mesh on another one. -/
def tableOf (method : Method) (dimensions : Nat) (start target : Mesh α) :
    Except (Violation α) (Table α) :=
  (start.vertices.map Vertex.position).mapM (located method dimensions target)

end

end Mapping

namespace Mesh.SameGeometry

section
variable {α : Type} {m m' : Mesh α}

theorem refl (m : Mesh α) : SameGeometry m m := ⟨rfl, rfl, rfl⟩

theorem symm (h : SameGeometry m m') : SameGeometry m' m :=
  ⟨h.vertices.symm, h.edges.symm, h.triangles.symm⟩

theorem length_eq (h : SameGeometry m m') : m.vertices.length = m'.vertices.length := by
  simpa using congrArg List.length h.vertices

theorem positions (h : SameGeometry m m') :
    m.vertices.map Vertex.position = m'.vertices.map Vertex.position := by
  have hsecond := congrArg (List.map Prod.snd) h.vertices
  rwa [List.map_map, List.map_map] at hsecond

theorem vertexPoint (h : SameGeometry m m') : m.vertexPoint = m'.vertexPoint := by
  funext v
  have hv := congrArg (·[v]?) h.positions
  simp only [List.getElem?_map] at hv
  unfold Mesh.vertexPoint
  cases hm : m.vertices[v]? <;> cases hm' : m'.vertices[v]? <;> simp_all

theorem edgePoints (h : SameGeometry m m') : m.edgePoints = m'.edgePoints := by
  funext e
  rw [Mesh.edgePoints, Mesh.edgePoints, h.vertexPoint]

theorem trianglePoints (h : SameGeometry m m') : m.trianglePoints = m'.trianglePoints := by
  funext t
  rw [Mesh.trianglePoints, Mesh.trianglePoints, h.vertexPoint]

theorem vertexTree (h : SameGeometry m m') : Search.vertexTree m = Search.vertexTree m' :=
  congrArg Search.Tree.mk h.vertices

theorem edgeTree (h : SameGeometry m m') : Search.edgeTree m = Search.edgeTree m' := by
  rw [Search.edgeTree, Search.edgeTree, h.edgePoints, h.edges]

theorem triangleTree (h : SameGeometry m m') : Search.triangleTree m = Search.triangleTree m' := by
  rw [Search.triangleTree, Search.triangleTree, h.trianglePoints, h.triangles]

end

section
variable {α : Type} [Scalar α] {m m' : Mesh α}

theorem rowOnEdge (h : SameGeometry m m') (p : Point α) :
    Mapping.rowOnEdge m p = Mapping.rowOnEdge m' p := by
  funext e
  unfold Mapping.rowOnEdge Mapping.edgeRow
  rw [h.edges, h.edgePoints]

theorem rowOnTriangle (h : SameGeometry m m') (p : Point α) :
    Mapping.rowOnTriangle m p = Mapping.rowOnTriangle m' p := by
  funext t
  unfold Mapping.rowOnTriangle Mapping.triangleRow
  rw [h.triangles, h.trianglePoints]

variable [Search.SearchOrder α]

open Mapping in
theorem located (h : SameGeometry m m') (method : Method) (dimensions : Nat) :
    located method dimensions m = located method dimensions m' := by
  funext p
  have hvertex : vertexLocated m p = vertexLocated m' p := by
    rw [vertexLocated, vertexLocated, h.vertexTree]
  have hrest : edgeOrVertexLocated m p = edgeOrVertexLocated m' p := by
    rw [edgeOrVertexLocated, edgeOrVertexLocated, edgeLocated, edgeLocated, h.edgeTree,
      h.rowOnEdge, hvertex]
  unfold Mapping.located triangleLocated
  rw [hvertex, hrest, h.triangleTree, h.rowOnTriangle]

end

end Mesh.SameGeometry

namespace Mapping

open Search

section
variable {α : Type} [Scalar α] [SearchOrder α]

/-- A table depends on the geometry of the meshes alone. -/
theorem tableOf_congr {start start' target target' : Mesh α} (hs : start.SameGeometry start')
    (ht : target.SameGeometry target') (method : Method) (dimensions : Nat) :
    tableOf method dimensions start target = tableOf method dimensions start' target' := by
  rw [tableOf, tableOf, hs.positions, ht.located]

end

/-! ## Computing the table -/

/-- The input and output mesh of a mapping, at a participant. -/
structure Attached {α : Type} (map : Mapping α) (p : Participant α) (input output : Mesh α) :
    Prop where
  inputAt : ∃ i, map.input = some i ∧ p.mesh i = .ok input
  outputAt : ∃ o, map.output = some o ∧ p.mesh o = .ok output

theorem Attached.direction {α : Type} {map : Mapping α} {p : Participant α}
    {input output : Mesh α} (h : map.Attached p input output) : ∃ s t,
    map.direction = .ok (s, t) ∧ p.mesh s = .ok (map.config.constraint.start input output) ∧
      p.mesh t = .ok (map.config.constraint.target input output) := by
  obtain ⟨i, hi, hinput⟩ := h.inputAt
  obtain ⟨o, ho, houtput⟩ := h.outputAt
  unfold Mapping.direction ends
  rw [hi, ho]
  cases map.config.constraint with
  | consistent => exact ⟨o, i, rfl, houtput, hinput⟩
  | conservative => exact ⟨i, o, rfl, hinput, houtput⟩

section
variable {α : Type} [Scalar α] [SearchOrder α] {map : Mapping α} {p : Participant α}
  {input output : Mesh α}

/-- With a fresh index, what is computed is the table of the two meshes; it is refused only if there
is nothing to map onto. -/
theorem compute_fresh (h : map.Attached p input output)
    (hfresh : p.cache.Fresh (map.config.constraint.target input output)) : ∃ cache,
    map.compute p =
      if (map.config.constraint.target input output).vertices.isEmpty &&
          !(map.config.constraint.start input output).vertices.isEmpty then
        .error (.fault (.emptyMesh (map.config.constraint.target input output).name))
      else
        ((tableOf map.config.method map.config.dimensions
          (map.config.constraint.start input output)
          (map.config.constraint.target input output)).mapError .violation).map
            fun table => ({ map with table := some table }, { p with cache }) := by
  obtain ⟨s, t, hdirection, hs, ht⟩ := h.direction
  obtain ⟨i', -, hall⟩ := locateAll_fresh map.config.method map.config.dimensions
    ((map.config.constraint.start input output).vertices.map Vertex.position) hfresh.handle
  generalize map.config.constraint.start input output = start at *
  generalize map.config.constraint.target input output = target at *
  refine ⟨(p.cache.handle target.id).2.update (p.cache.handle target.id).1 i', ?_⟩
  simp only [compute, hdirection, hs, ht, hall, mapError_ok, ok_bind, tableOf]
  split
  next => rfl
  next =>
    cases (start.vertices.map Vertex.position).mapM
      (located map.config.method map.config.dimensions target) <;> rfl

/-- What was computed with a fresh index is the table of the two meshes. -/
theorem compute_fresh_ok (h : map.Attached p input output)
    (hfresh : p.cache.Fresh (map.config.constraint.target input output)) {map' : Mapping α}
    {p' : Participant α} (hcompute : map.compute p = .ok (map', p')) :
    ((map.config.constraint.start input output).vertices ≠ [] →
      (map.config.constraint.target input output).vertices ≠ []) ∧
    ∃ table, map' = { map with table := some table } ∧
      tableOf map.config.method map.config.dimensions (map.config.constraint.start input output)
        (map.config.constraint.target input output) = .ok table := by
  obtain ⟨cache, heq⟩ := compute_fresh h hfresh
  generalize map.config.constraint.start input output = start at *
  generalize map.config.constraint.target input output = target at *
  rw [hcompute] at heq
  split at heq
  next => cases heq
  next hguard =>
    refine ⟨fun hs ht => hguard (by simp [hs, ht]), ?_⟩
    cases htable : tableOf map.config.method map.config.dimensions start target with
    | error v => rw [htable] at heq; cases heq
    | ok table =>
      rw [htable] at heq
      exact ⟨table, (Prod.mk.inj (Except.ok.inj heq)).1, rfl⟩

end

/-! ## What the rows of a table have in common -/

/-- Every vertex has a row on a mesh, and the row has what all rows on that mesh have. -/
theorem tableOf_rows {α : Type} [Scalar α] [SearchOrder α] [LawfulSearchOrder α]
    {P : Row α → Prop} {start target : Mesh α} (h : target.Consistent)
    (hrows : ∀ p, Rows target p P) (method : Method) (dimensions : Nat) :
    ∃ table, tableOf method dimensions start target = .ok table ∧
      table.length = start.vertices.length ∧
      ∀ row ∈ table, P row ∨ target.vertices = [] ∧ row = [] := by
  obtain ⟨table, htable⟩ := mapM_succeeds fun p (_ : p ∈ start.vertices.map Vertex.position) =>
    (located_total h (hrows p) method dimensions).imp fun _ hr => hr.1
  refine ⟨table, htable, (length_of_mapM htable).trans (List.length_map _), fun row hmem => ?_⟩
  obtain ⟨p, -, hlocated⟩ := mem_of_mapM htable row hmem
  obtain ⟨row', hrow', hcommon⟩ := located_total h (hrows p) method dimensions
  obtain rfl := Except.ok.inj (hlocated.symm.trans hrow')
  exact hcommon

/-! ## Convex tables -/

section
variable [SearchOrder ℝ] [LawfulSearchOrder ℝ]

/-- Every vertex has a convex row on a mesh with vertices. -/
theorem tableOf_total {start target : Mesh ℝ} (h : target.Consistent)
    (hne : start.vertices ≠ [] → target.vertices ≠ []) (method : Method) (dimensions : Nat) :
    ∃ table, tableOf method dimensions start target = .ok table ∧
      table.length = start.vertices.length ∧
      ∀ row ∈ table, Row.Convex target.vertices.length row := by
  obtain ⟨table, htable, hlength, hrows⟩ := tableOf_rows h (rows_convex h) method dimensions
  refine ⟨table, htable, hlength, fun row hrow => (hrows row hrow).resolve_right fun hno => ?_⟩
  have hstart : start.vertices ≠ [] := by
    rintro hnil
    rw [hnil] at hlength
    exact List.not_mem_nil (List.length_eq_zero_iff.1 hlength ▸ hrow)
  exact hne hstart hno.1

/-- With a fresh index, the table can be computed as soon as there is something to map onto. -/
theorem compute_total {map : Mapping ℝ} {p : Participant ℝ} {input output : Mesh ℝ}
    (hattached : map.Attached p input output)
    (hfresh : p.cache.Fresh (map.config.constraint.target input output))
    (h : (map.config.constraint.target input output).Consistent)
    (hne : (map.config.constraint.start input output).vertices ≠ [] →
      (map.config.constraint.target input output).vertices ≠ []) :
    ∃ table cache,
      map.compute p = .ok ({ map with table := some table }, { p with cache }) ∧
      table.length = (map.config.constraint.start input output).vertices.length ∧
      ∀ row ∈ table,
        Row.Convex (map.config.constraint.target input output).vertices.length row := by
  obtain ⟨cache, hcompute⟩ := compute_fresh hattached hfresh
  obtain ⟨table, htable, hlength, hconvex⟩ :=
    tableOf_total h hne map.config.method map.config.dimensions
  refine ⟨table, cache, ?_, hlength, hconvex⟩
  rw [hcompute, htable, if_neg]
  · rfl
  · intro hempty
    simp only [Bool.and_eq_true, Bool.not_eq_true', List.isEmpty_iff,
      List.isEmpty_eq_false_iff] at hempty
    exact hne hempty.2 hempty.1

end

end Mapping

end Cosimulation

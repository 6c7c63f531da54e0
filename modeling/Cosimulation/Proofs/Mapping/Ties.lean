import Cosimulation.Proofs.Mapping.Tables
import Cosimulation.Proofs.Search.Answers

/-!
# Rows and equally near shapes

To locate a point, the nearest vertex is asked for and, for a projection, the few nearest edges and
triangles. If none of these searches divides equally near shapes (`Clear`), the rows are the same in
every admissible visit (`located_settled`). The row of the nearest vertex names it, so there the
condition is also necessary (`clear_of_settlesRows`).

`ties_settled` puts this together with what is known of the searches.
-/

namespace Cosimulation.Mapping

open Search

/-- How many shapes of which kinds are asked for to locate a point. -/
def asksFor (dimensions : Nat) : Method → List (Kind × Nat)
  | .nearestNeighbor => [(.vertices, 1)]
  | .nearestProjection =>
    (if dimensions = 3 then [(.triangles, candidates)] else []) ++
      [(.edges, candidates), (.vertices, 1)]

/-- None of the searches that locate a point divides equal squared distances. -/
def Clear {α : Type} [Scalar α] (method : Method) (dimensions : Nat) (m : Mesh α) (p : Point α) :
    Prop :=
  ∀ q ∈ asksFor dimensions method, ∀ shapes, q.1.shapes m p = .ok shapes →
    Undivided Prod.snd shapes q.2

/-- The rows of some points are the same, whatever admissible visit is made. -/
def SettlesRows {α : Type} [Scalar α] (i : MeshIndex α) (m : Mesh α) (method : Method)
    (dimensions : Nat) (ps : List (Point α)) (rows : List (Row α)) : Prop :=
  ∀ [SearchOrder α] [LawfulSearchOrder α], ∃ i', i'.Fresh m ∧
    locateAll method dimensions m i ps = .ok (rows, i')

variable {α : Type} [Scalar α] {m : Mesh α} {p : Point α} {i : MeshIndex α}
  {method : Method} {dimensions : Nat}

/-- With a fresh index, the rows of the nearest vertices are those on the mesh as it is. -/
theorem locateAll_vertices [SearchOrder α] (hi : i.Fresh m) (dimensions : Nat)
    (ps : List (Point α)) : ∃ i', i'.Fresh m ∧
      locateAll .nearestNeighbor dimensions m i ps = .ok (ps.map (vertexLocated m), i') := by
  obtain ⟨i', hi', hall⟩ := locateAll_fresh .nearestNeighbor dimensions ps hi
  have hvertex (q : Point α) :
      located .nearestNeighbor dimensions m q = .ok (vertexLocated m q) := rfl
  refine ⟨i', hi', ?_⟩
  rw [hall, mapM_eq_ok fun q _ => hvertex q]
  rfl

/-! ## Rows that the visit does not change -/

section
variable [Std.TransCmp (Scalar.rank : α → α → Ordering)]

theorem vertexLocated_settled (hm : m.Consistent)
    (hu : ∀ shapes, Kind.vertices.shapes m p = .ok shapes → Undivided Prod.snd shapes 1) :
    ∃ row, ∀ [SearchOrder α] [LawfulSearchOrder α], vertexLocated m p = row := by
  have hids (d : Point α → α) : ((measured (vertexTree m).entries d).map Prod.fst).Nodup :=
    map_fst_vertices hm d ▸ List.nodup_range
  obtain ⟨hits, hhits⟩ := (nearest_settled_iff (hids _)).2 (hu _ rfl)
  refine ⟨hits.map fun h => ⟨h.index, 1⟩, fun {order lawful} => ?_⟩
  rw [vertexLocated_eq, nearestPoints, hhits]

theorem edgeLocated_settled (hm : m.Consistent)
    (hu : ∀ shapes, Kind.edges.shapes m p = .ok shapes → Undivided Prod.snd shapes candidates) :
    ∃ r, ∀ [SearchOrder α] [LawfulSearchOrder α], edgeLocated m p = r := by
  obtain ⟨t, ht⟩ := edgeTree_total hm.whole
  have hids (d : Segment α → α) : ((measured t.entries d).map Prod.fst).Nodup :=
    map_fst_edges hm ht d ▸ List.nodup_range
  obtain ⟨hits, hhits⟩ := (nearest_settled_iff (hids _)).2 (hu _ (by rw [Kind.shapes, ht]; rfl))
  refine ⟨firstInside (rowOnEdge m p) hits, fun {order lawful} => ?_⟩
  rw [edgeLocated, ht, ok_bind, nearestSegments, hhits]

theorem triangleLocated_settled (hm : m.Consistent)
    (hu : ∀ shapes, Kind.triangles.shapes m p = .ok shapes →
      Undivided Prod.snd shapes candidates) :
    ∃ r, ∀ [SearchOrder α] [LawfulSearchOrder α], triangleLocated m p = r := by
  obtain ⟨t, ht⟩ := triangleTree_total hm.whole
  have hids (d : Corners α → α) : ((measured t.entries d).map Prod.fst).Nodup :=
    map_fst_triangles hm ht d ▸ List.nodup_range
  obtain ⟨hits, hhits⟩ := (nearest_settled_iff (hids _)).2 (hu _ (by rw [Kind.shapes, ht]; rfl))
  refine ⟨firstInside (rowOnTriangle m p) hits, fun {order lawful} => ?_⟩
  rw [triangleLocated, ht, ok_bind, nearestTriangles, hhits]

/-- The row of a point is the same in every admissible visit if no search divides equally near
shapes. -/
theorem located_settled (hm : m.Consistent) (h : Clear method dimensions m p) :
    ∃ row, ∀ [SearchOrder α] [LawfulSearchOrder α], located method dimensions m p = .ok row := by
  let base : SearchOrder α := .byIndex
  have hbase := SearchOrder.lawful_byIndex (α := α)
  obtain ⟨row, hrow, -⟩ := located_total hm (rows_within hm p) method dimensions
  refine ⟨row, fun {order lawful} => Eq.trans ?_ hrow⟩
  -- Both visits, the one in question and that by index, give the same rows of each kind.
  cases method with
  | nearestNeighbor =>
    obtain ⟨vertex, hvertex⟩ :=
      vertexLocated_settled hm (h (.vertices, 1) (List.mem_singleton.2 rfl))
    exact congrArg Except.ok (hvertex.trans (@hvertex base hbase).symm)
  | nearestProjection =>
    obtain ⟨vertex, hvertex⟩ := vertexLocated_settled hm (h (.vertices, 1) (by simp [asksFor]))
    obtain ⟨edge, hedge⟩ := edgeLocated_settled hm (h (.edges, candidates) (by simp [asksFor]))
    unfold located edgeOrVertexLocated
    dsimp only
    by_cases hd : dimensions = 3
    · obtain ⟨triangle, htriangle⟩ := triangleLocated_settled hm
        (h (.triangles, candidates) (by simp [asksFor, hd]))
      simp only [hd, htriangle, hedge, hvertex]
    · simp only [if_neg hd, hedge, hvertex]

theorem exists_settlesRows (hm : m.Consistent) (hi : i.Fresh m) {ps : List (Point α)}
    (h : ∀ q ∈ ps, Clear method dimensions m q) :
    ∃ rows, SettlesRows i m method dimensions ps rows := by
  choose! row hrow using fun q hq => located_settled hm (h q hq)
  refine ⟨ps.map row, fun {order lawful} => ?_⟩
  obtain ⟨i', hi', hall⟩ := locateAll_fresh method dimensions ps hi
  refine ⟨i', hi', ?_⟩
  rw [hall, mapM_eq_ok fun q hq => hrow q hq]
  rfl

/-! ## Rows that name the nearest vertex -/

/-- The rows of the nearest vertices are the same in every admissible visit only if no search
divides equally near vertices. -/
theorem clear_of_settlesRows (hm : m.Consistent) (hi : i.Fresh m) {ps : List (Point α)}
    {rows : List (Row α)} (h : SettlesRows i m .nearestNeighbor dimensions ps rows) :
    ∀ q ∈ ps, Clear .nearestNeighbor dimensions m q := by
  intro q hq kind hkind shapes hshapes
  obtain rfl := List.mem_singleton.1 hkind
  obtain rfl := Except.ok.inj hshapes
  have hrows [SearchOrder α] [LawfulSearchOrder α] : rows = ps.map (vertexLocated m) := by
    obtain ⟨_, -, hgiven⟩ := h
    obtain ⟨_, -, hall⟩ := locateAll_vertices hi dimensions ps
    exact (Prod.mk.inj (Except.ok.inj (hgiven.symm.trans hall))).1
  have hids : ((measured (vertexTree m).entries fun v => v.distance2 q).map Prod.fst).Nodup :=
    map_fst_vertices hm _ ▸ List.nodup_range
  let base : SearchOrder α := .byIndex
  have hbase := SearchOrder.lawful_byIndex (α := α)
  have hfirst : Finds _ 1 (nearestPoints (vertexTree m) q 1) := nearest_finds hids
  refine (nearest_settled_iff hids).1 ⟨_, fun {order lawful} =>
    (nearest_finds hids).eq_of_indices hfirst hids ?_⟩
  have hrow := List.map_inj_left.1 (hrows.symm.trans (@hrows base hbase)) q hq
  rw [vertexLocated_eq, @vertexLocated_eq α _ base] at hrow
  have hvertices := congrArg (List.map Element.vertex) hrow
  rwa [List.map_map, List.map_map] at hvertices

/-- What a search for the nearest vertices, edges or triangles finds is the same in every admissible
visit exactly if the cut does not divide equal squared distances, and it is the first of all shapes
by distance and index if the cut does not divide equal distances either. The rows of points are the
same if no search for them divides equal squared distances, and those of nearest vertices only
then. -/
theorem ties_settled (hm : m.Consistent) (hi : i.Fresh m) :
    (∀ (kind : Kind) (p : Point α), ∃ shapes, kind.shapes m p = .ok shapes ∧
      shapes.map Prod.fst = List.range (kind.count m) ∧
      ∀ k, Answers i m (kind.query p k) shapes k) ∧
    (∀ (method : Method) (dimensions : Nat) (ps : List (Point α)),
      (∀ q ∈ ps, Clear method dimensions m q) →
        ∃ rows, SettlesRows i m method dimensions ps rows) ∧
    (∀ (dimensions : Nat) (ps : List (Point α)) (rows : List (Row α)),
      SettlesRows i m .nearestNeighbor dimensions ps rows →
        ∀ q ∈ ps, Clear .nearestNeighbor dimensions m q) :=
  ⟨exists_answers hm hi, fun _ _ _ => exists_settlesRows hm hi,
    fun _ _ _ => clear_of_settlesRows hm hi⟩

end

/-! ## Vertices on a sphere -/

/-- Three vertices that are equally far from the origin as far as floating point can tell. The
squared distance of the first one is the next number after that of the others. -/
def sphere : Mesh Double where
  id := 0
  name := "sphere"
  dimensions := 3
  vertices := [{ id := 0, position := ⟨805306377.0, 1073741836.0, 0⟩ },
    { id := 1, position := ⟨1342177295.0, 0, 0⟩ }, { id := 2, position := ⟨0, 1342177295.0, 0⟩ }]

theorem sphere_consistent : sphere.Consistent where
  dimensions := .inr rfl
  flat := nofun
  vertexIds := rfl
  edgeIds := rfl
  triangleIds := rfl
  ends := by simp [sphere]
  corners := by simp [sphere]

/-- The squared distances from the origin. -/
def sphereShapes : List (Nat × Double) :=
  [(0, ⟨4879931671389929474⟩), (1, ⟨4879931671389929473⟩), (2, ⟨4879931671389929473⟩)]

theorem sphere_shapes : Kind.vertices.shapes sphere .origin = .ok sphereShapes :=
  congrArg Except.ok (by decide +kernel)

theorem sphere_divided : ¬ Undivided Prod.snd sphereShapes 1 := by decide +kernel

theorem sphere_undivided : Undivided Prod.snd sphereShapes 2 := by decide +kernel

/-- The distance from the origin. -/
def sphereRadius : Double := Scalar.sqrt ⟨4879931671389929473⟩

/-- The roots are rounded to the same number. -/
theorem sphere_level : ∀ h ∈ sphereShapes.map Hit.of, h.distance = sphereRadius := by
  have hfirst : Double.unpacked ⟨4879931671389929474⟩ =
      .finite .positive 7036874575052802 8 (by decide) := rfl
  have hothers : Double.unpacked ⟨4879931671389929473⟩ =
      .finite .positive 7036874575052801 8 (by decide) := rfl
  have hroot : Nat.sqrt (7036874575052802 <<< 52) = 5629499597127680 :=
    (Nat.eq_sqrt.2 (by decide)).symm
  have hroot' : Nat.sqrt (7036874575052801 <<< 52) = 5629499597127680 :=
    (Nat.eq_sqrt.2 (by decide)).symm
  have hlevel : Scalar.sqrt (⟨4879931671389929474⟩ : Double) = sphereRadius := by
    refine Double.sqrt_congr hfirst hothers ?_
    rw [Double.sqrtCore_eq (show _ = (-22 : Int) by decide) hroot,
      Double.sqrtCore_eq (show _ = (-22 : Int) by decide) hroot']
    rfl
  simp [sphereShapes, Hit.of, hlevel, sphereRadius]

/-- All three are ranked by index, but a search for two leaves the first one out. -/
theorem sphere_ranked : Hit.ranked (sphereShapes.map .of) =
      [⟨0, sphereRadius⟩, ⟨1, sphereRadius⟩, ⟨2, sphereRadius⟩] ∧
    settledHits sphereShapes 2 = [⟨1, sphereRadius⟩, ⟨2, sphereRadius⟩] := by
  have hfound : (sphereShapes.filter fun s => upTo Prod.snd sphereShapes s.2 ≤ 2) =
      sphereShapes.tail := by decide +kernel
  have hothers : ∀ h ∈ sphereShapes.tail.map Hit.of, h.distance = sphereRadius :=
    fun h hh => sphere_level h (List.mem_cons_of_mem _ hh)
  constructor
  · have hfirst : Hit.of (0, (⟨4879931671389929474⟩ : Double)) = ⟨0, sphereRadius⟩ :=
      congrArg (Hit.mk 0) (sphere_level _ List.mem_cons_self)
    rw [Hit.ranked_level sphere_level (by decide)]
    exact congrArg (· :: sphereShapes.tail.map Hit.of) hfirst
  · rw [settledHits, hfound, Hit.ranked_level hothers (by decide)]
    rfl

/-- The search for the nearest vertex is up to the visit, and so is the row of the origin. The
search for two finds the two others, although the first vertex is as far and has a smaller
index. -/
theorem ties_settled_sphere :
    (∀ hits, ¬ MeshIndex.Settles {} sphere (.vertices .origin 1) (.hits hits)) ∧
    (∀ rows, ¬ SettlesRows {} sphere .nearestNeighbor 3 [.origin] rows) ∧
    MeshIndex.Settles {} sphere (.vertices .origin 2)
      (.hits [⟨1, sphereRadius⟩, ⟨2, sphereRadius⟩]) ∧
    (Hit.ranked (sphereShapes.map .of)).take 2 = [⟨0, sphereRadius⟩, ⟨1, sphereRadius⟩] := by
  obtain ⟨hsearch, -, hrows⟩ :=
    ties_settled sphere_consistent (MeshIndex.fresh_empty sphere)
  obtain ⟨shapes, hshapes, -, hanswers⟩ := hsearch .vertices .origin
  obtain rfl := Except.ok.inj (hshapes.symm.trans sphere_shapes)
  obtain ⟨hranked, hsettled⟩ := sphere_ranked
  refine ⟨fun hits h => sphere_divided ((hanswers 1).undivided hits h), fun rows h => ?_, ?_, ?_⟩
  · exact sphere_divided (hrows 3 [.origin] rows h .origin List.mem_cons_self _
      List.mem_cons_self _ sphere_shapes)
  · exact hsettled ▸ (hanswers 2).settles sphere_undivided
  · rw [hranked]
    rfl

end Cosimulation.Mapping

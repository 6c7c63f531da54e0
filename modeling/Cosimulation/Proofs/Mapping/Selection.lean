import Cosimulation.Proofs.Mapping.Interpolation
import Cosimulation.Proofs.Mapping.Tables
import Cosimulation.Proofs.Search.Nearest

/-!
# Which row is selected

Nearest projection ranks the triangles and edges of a mesh by one computation, the distance to the
figure, and accepts them by another, the signs of the weights. `locate_selects` is where the two
meet. On a mesh without degenerate edges and triangles, the candidates are the nearest figures in
the geometric sense (`Nearest`), and one is accepted exactly if the projection of the point falls
within it (`Represents.fallsAt_iff`). The first accepted one is then at the distance of the point
that its row expresses, and no figure of its kind within which the projection falls is nearer,
whether it was among the candidates or not (`Settles`).
-/

namespace Cosimulation

open Cosimulation.Geometry Cosimulation.Search

/-- The points that an edge or triangle consists of, in the line or plane that they lie in. -/
structure Figure where
  flat : Set (Point ℝ)
  filled : Set (Point ℝ)
  filled_subset : filled ⊆ flat

namespace Figure

/-- A single point. -/
def point (a : Point ℝ) : Figure := ⟨{a}, {a}, subset_rfl⟩

/-- The segment between two points. -/
def segment (a b : Point ℝ) : Figure :=
  ⟨linePoints a b, segmentPoints a b, segmentPoints_subset a b⟩

/-- The filled triangle of three points. -/
def triangle (a b c : Point ℝ) : Figure :=
  ⟨planePoints a b c, trianglePoints a b c, trianglePoints_subset a b c⟩

end Figure

namespace Mesh

/-- The vertices of a mesh, by position. -/
def vertexFigures (m : Mesh ℝ) : List Figure := m.vertices.map fun v => .point v.position

/-- The edges of a mesh, by position. -/
noncomputable def edgeFigures (m : Mesh ℝ) : List Figure :=
  m.edges.map fun e => .segment (m.pointAt e.ends.1) (m.pointAt e.ends.2)

/-- The triangles of a mesh, by position. -/
noncomputable def triangleFigures (m : Mesh ℝ) : List Figure :=
  m.triangles.map fun t =>
    .triangle (m.pointAt t.corners.1) (m.pointAt t.corners.2.1) (m.pointAt t.corners.2.2)

/-- No edge and no triangle is too small to be divided by. -/
structure Regular (m : Mesh ℝ) : Prop where
  edges : ∀ e ∈ m.edges, 1e-30 < (m.pointAt e.ends.2 - m.pointAt e.ends.1).norm2
  triangles : ∀ t ∈ m.triangles, 1e-30 <
    ((m.pointAt t.corners.2.1 - m.pointAt t.corners.1).cross
      (m.pointAt t.corners.2.2 - m.pointAt t.corners.1)).norm2

end Mesh

namespace Mapping

variable {m : Mesh ℝ} {p q : Point ℝ} {figures : List Figure} {hits : List (Hit ℝ)} {k : Nat}
  {rowOn : Nat → Except (Violation ℝ) (Option (Row ℝ))}

/-! ## The candidates -/

/-- The hits are the `k` figures nearest to a point, by distance and position. -/
structure Nearest (figures : List Figure) (p : Point ℝ) (k : Nat) (hits : List (Hit ℝ)) :
    Prop where
  length : hits.length = min k figures.length
  measured : ∀ h ∈ hits, ∃ f, figures[h.index]? = some f ∧
    IsLeast ((fun x => √(p.distance2 x)) '' f.filled) h.distance
  ranked : hits.Pairwise Hit.Before
  complete : ∀ i f, figures[i]? = some f → (∃ h ∈ hits, h.index = i) ∨
    ∀ h ∈ hits, ∀ x ∈ f.filled, h.distance ≤ √(p.distance2 x)

/-- The shapes of a search tree are the figures at their positions, and the squared distance by
which they are searched is that to the figure. -/
structure Depicts {σ : Type} (figures : List Figure) (p : Point ℝ) (entries : List (Nat × σ))
    (d : σ → ℝ) : Prop where
  positions : entries.map Prod.fst = List.range figures.length
  measures : ∀ i s, (i, s) ∈ entries → ∃ f, figures[i]? = some f ∧
    IsLeast (p.distance2 '' f.filled) (d s)

theorem isLeast_sqrt {s : Set (Point ℝ)} {d : ℝ} (h : IsLeast (p.distance2 '' s) d) :
    IsLeast ((fun x => √(p.distance2 x)) '' s) √d := by
  have hsqrt := Monotone.map_isLeast Real.sqrt_monotone h
  rwa [Set.image_image] at hsqrt

theorem Depicts.nearest [SearchOrder ℝ] [LawfulSearchOrder ℝ] {σ : Type} {t : Search.Tree σ}
    {d : σ → ℝ} (h : Depicts figures p t.entries d) (k : Nat) :
    Nearest figures p k (t.nearest d k) := by
  have hids : (t.entries.map Prod.fst).Nodup := by
    rw [h.positions]
    exact List.nodup_range
  have hnearest := t.nearest_isNearest hids d k
  refine ⟨?_, fun x hx => ?_, hnearest.ranked, fun i f hf => ?_⟩
  · have hlen := congrArg List.length h.positions
    rw [List.length_map, List.length_range] at hlen
    rw [hnearest.length, hlen]
  · obtain ⟨s, hs, hdistance⟩ := hnearest.measured x hx
    obtain ⟨f, hf, hleast⟩ := h.measures _ s hs
    exact ⟨f, hf, hdistance ▸ isLeast_sqrt hleast⟩
  · have hi : i ∈ t.entries.map Prod.fst := by
      rw [h.positions, List.mem_range]
      exact (List.getElem?_eq_some_iff.1 hf).1
    obtain ⟨⟨_, s⟩, hs, rfl⟩ := List.mem_map.1 hi
    obtain ⟨f', hf', hleast⟩ := h.measures _ s hs
    obtain rfl := Option.some.inj (hf.symm.trans hf')
    refine (hnearest.complete _ s hs).imp_right fun hall x hx y hy => ?_
    exact (hall x hx).trans ((isLeast_sqrt hleast).2 ⟨y, hy, rfl⟩)

/-! ## The first one accepted -/

/-- The projection of a point onto the figure at a position falls within it, at `q`. -/
def FallsAt (figures : List Figure) (p : Point ℝ) (i : Nat) (q : Point ℝ) : Prop :=
  ∃ f, figures[i]? = some f ∧ IsProjection p q f.flat ∧ q ∈ f.filled

/-- The projection of a point falls within none of the figures that were found. -/
def Missed (figures : List Figure) (p : Point ℝ) (hits : List (Hit ℝ)) : Prop :=
  ∀ h ∈ hits, ∀ q, ¬ FallsAt figures p h.index q

/-- The figure at a position, wherever there is one, has a row that represents the projection of a
point. -/
def Represented (m : Mesh ℝ) (p : Point ℝ) (figures : List Figure)
    (rowOn : Nat → Except (Violation ℝ) (Option (Row ℝ))) : Prop :=
  ∀ i f, figures[i]? = some f →
    ∃ row, rowOn i = .ok (some row) ∧ Represents m p f.flat f.filled row

/-- The first of the hits within whose figure the projection of a point falls, and its row. -/
structure Settles (m : Mesh ℝ) (p : Point ℝ) (figures : List Figure)
    (rowOn : Nat → Except (Violation ℝ) (Option (Row ℝ))) (hits : List (Hit ℝ)) (h : Hit ℝ)
    (row : Row ℝ) : Prop where
  first : ∃ front back, hits = front ++ h :: back ∧ Missed figures p front
  falls : FallsAt figures p h.index (expressed m row)
  weights : rowOn h.index = .ok (some row)
  reported : h.distance = √(p.distance2 (expressed m row))
  nearest : ∀ j q, FallsAt figures p j q → h.distance ≤ √(p.distance2 q)

theorem Represents.fallsAt_iff {i : Nat} {f : Figure} {row : Row ℝ}
    (h : Represents m p f.flat f.filled row) (hf : figures[i]? = some f) :
    FallsAt figures p i q ↔ isInside row = true ∧ q = expressed m row := by
  constructor
  · rintro ⟨f', hf', hprojection, hq⟩
    obtain rfl := Option.some.inj (hf.symm.trans hf')
    obtain rfl := hprojection.unique h.projects
    exact ⟨h.inside_iff.2 hq, rfl⟩
  · rintro ⟨hin, rfl⟩
    exact ⟨f, hf, h.projects, h.inside_iff.1 hin⟩

/-- What is accepted first is the first hit within whose figure the projection falls. -/
theorem firstInside_cases (hrow : Represented m p figures rowOn) : ∀ {hits : List (Hit ℝ)},
    (∀ h ∈ hits, ∃ f, figures[h.index]? = some f) →
    (firstInside rowOn hits = .ok none ∧ Missed figures p hits) ∨
      ∃ front h back row, firstInside rowOn hits = .ok (some row) ∧
        (hits = front ++ h :: back ∧ Missed figures p front) ∧
        FallsAt figures p h.index (expressed m row) ∧ rowOn h.index = .ok (some row) := by
  intro hits
  induction hits with
  | nil => exact fun _ => .inl ⟨rfl, fun h hh => absurd hh List.not_mem_nil⟩
  | cons x hits ih =>
    intro hfigure
    obtain ⟨f, hf⟩ := hfigure x List.mem_cons_self
    obtain ⟨row, hweights, hrepresents⟩ := hrow x.index f hf
    rw [firstInside, hweights, ok_bind]
    dsimp only
    by_cases hin : isInside row = true
    · rw [if_pos hin]
      exact .inr ⟨[], x, hits, row, rfl, ⟨rfl, fun h hh => absurd hh List.not_mem_nil⟩,
        (hrepresents.fallsAt_iff hf).2 ⟨hin, rfl⟩, hweights⟩
    · rw [if_neg hin]
      have hmiss (q : Point ℝ) : ¬ FallsAt figures p x.index q := fun hq =>
        hin ((hrepresents.fallsAt_iff hf).1 hq).1
      rcases ih fun h hh => hfigure h (List.mem_cons_of_mem _ hh) with
        ⟨hnone, hmissed⟩ | ⟨front, h, back, row, hsome, ⟨hsplit, hmissed⟩, hfalls⟩
      · exact .inl ⟨hnone, List.forall_mem_cons.2 ⟨hmiss, hmissed⟩⟩
      · exact .inr ⟨x :: front, h, back, row, hsome,
          ⟨by rw [hsplit, List.cons_append], List.forall_mem_cons.2 ⟨hmiss, hmissed⟩⟩, hfalls⟩

/-- Where the projection falls within a figure, it is at the distance of the figure. -/
theorem FallsAt.isLeast {i : Nat} (h : FallsAt figures p i q) : ∃ f, figures[i]? = some f ∧
    IsLeast ((fun x => √(p.distance2 x)) '' f.filled) √(p.distance2 q) := by
  obtain ⟨f, hf, hprojection, hq⟩ := h
  exact ⟨f, hf, isLeast_sqrt (hprojection.isLeast f.filled_subset hq)⟩

/-- The search for a row among some hits comes to that of the first one within whose figure the
projection falls, if there is one. -/
def Searches (m : Mesh ℝ) (p : Point ℝ) (figures : List Figure)
    (rowOn : Nat → Except (Violation ℝ) (Option (Row ℝ))) (hits : List (Hit ℝ))
    (outcome : Except (Violation ℝ) (Option (Row ℝ))) : Prop :=
  (outcome = .ok none ∧ Missed figures p hits) ∨
    ∃ h row, outcome = .ok (some row) ∧ Settles m p figures rowOn hits h row

/-- If the candidates are the nearest figures, the one accepted first is at the distance of the
point that its row expresses, and no other figure within which the projection falls is nearer. -/
theorem firstInside_searches (hrow : Represented m p figures rowOn)
    (hnearest : Nearest figures p k hits) :
    Searches m p figures rowOn hits (firstInside rowOn hits) := by
  have hfigure : ∀ h ∈ hits, ∃ f, figures[h.index]? = some f := fun h hh =>
    (hnearest.measured h hh).imp fun _ hf => hf.1
  refine (firstInside_cases hrow hfigure).imp_right ?_
  rintro ⟨front, h, back, row, hsome, ⟨hsplit, hmissed⟩, hfalls, hweights⟩
  have hmem : h ∈ hits := hsplit ▸ List.mem_append_cons_self
  obtain ⟨f, hf, hleast⟩ := hnearest.measured h hmem
  refine ⟨h, row, hsome, ⟨front, back, hsplit, hmissed⟩, hfalls, hweights, ?_, fun j q hj => ?_⟩
  · obtain ⟨f', hf', hleast'⟩ := hfalls.isLeast
    obtain rfl := Option.some.inj (hf.symm.trans hf')
    exact hleast.unique hleast'
  · obtain ⟨g, hg, -, hq⟩ := id hj
    rcases hnearest.complete j g hg with ⟨x, hx, rfl⟩ | hall
    · obtain ⟨g', hg', hbound⟩ := hnearest.measured x hx
      obtain rfl := Option.some.inj (hg.symm.trans hg')
      refine le_trans ?_ (hbound.2 ⟨q, hq, rfl⟩)
      -- A candidate is not ranked before the accepted one, where the projection falls within none.
      have hranked := hnearest.ranked
      rw [hsplit] at hx hranked
      rcases List.mem_append.1 hx with hfront | hx
      · exact absurd hj (hmissed x hfront q)
      rcases List.mem_cons.1 hx with rfl | hback
      · exact le_rfl
      have hbefore := (List.pairwise_cons.1 (List.pairwise_append.1 hranked).2.1).1 x hback
      exact hbefore.elim le_of_lt fun heq => heq.1.le
    · exact hall h hmem q hq

/-! ## The shapes of a mesh -/

theorem vertices_depict (h : m.Consistent) (p : Point ℝ) :
    Depicts m.vertexFigures p (vertexTree m).entries fun v => v.distance2 p where
  positions := by
    rw [vertexTree, List.map_map, Mesh.vertexFigures, List.length_map]
    exact h.vertexIds
  measures i s hs := by
    obtain ⟨v, hv, heq⟩ := List.mem_map.1 hs
    obtain ⟨rfl, rfl⟩ := Prod.mk.inj heq
    refine ⟨.point v.position, by rw [Mesh.vertexFigures, List.getElem?_map,
      getElem?_id h.vertexIds hv]; rfl, ?_⟩
    have hcomm : v.position.distance2 p = p.distance2 v.position := by
      simp only [Point.distance2, Point.norm2, Point.dot_eq, Point.sub_x, Point.sub_y, Point.sub_z]
      ring
    rw [hcomm, Figure.point, Set.image_singleton]
    exact isLeast_singleton

theorem edges_depict (h : m.Consistent) (hreg : m.Regular) {t : Search.Tree (Segment ℝ)}
    (ht : edgeTree m = .ok t) (p : Point ℝ) :
    Depicts m.edgeFigures p t.entries fun (a, b) => searchDistance2 p a b where
  positions := by
    rw [map_fst_edgeTree ht, Mesh.edgeFigures, List.length_map]
    exact h.edgeIds
  measures i s hs := by
    obtain ⟨e, he, rfl, hpoints⟩ := mem_edgeTree ht hs
    obtain ⟨ha, hb⟩ := Mesh.pointAt_of_edgePoints hpoints
    have hlen := hreg.edges e he
    refine ⟨.segment s.1 s.2, ?_, ?_⟩
    · rw [Mesh.edgeFigures, List.getElem?_map, getElem?_id h.edgeIds he, ← ha, ← hb]
      rfl
    · rw [ha, hb] at hlen
      show IsLeast _ (searchDistance2 p s.1 s.2)
      rw [searchDistance2_eq p hlen]
      exact closestOnSegment_isLeast p hlen

theorem triangles_depict (h : m.Consistent) (hreg : m.Regular) {t : Search.Tree (Corners ℝ)}
    (ht : triangleTree m = .ok t) (p : Point ℝ) :
    Depicts m.triangleFigures p t.entries fun (a, b, c) => triangleDistance2 p a b c where
  positions := by
    rw [map_fst_triangleTree ht, Mesh.triangleFigures, List.length_map]
    exact h.triangleIds
  measures i s hs := by
    obtain ⟨e, he, rfl, hpoints⟩ := mem_triangleTree ht hs
    obtain ⟨ha, hb, hc⟩ := Mesh.pointAt_of_trianglePoints hpoints
    have harea := hreg.triangles e he
    refine ⟨.triangle s.1 s.2.1 s.2.2, ?_, ?_⟩
    · rw [Mesh.triangleFigures, List.getElem?_map, getElem?_id h.triangleIds he, ← ha, ← hb, ← hc]
      rfl
    · rw [ha, hb, hc] at harea
      exact closestOnTriangle_isLeast p harea

theorem rowOnEdge_represents (h : m.Consistent) (hreg : m.Regular) (p : Point ℝ) :
    Represented m p m.edgeFigures (rowOnEdge m p) := by
  intro i f hf
  rw [Mesh.edgeFigures, List.getElem?_map] at hf
  obtain ⟨e, he, rfl⟩ := Option.map_eq_some_iff.1 hf
  have hmem := List.mem_of_getElem? he
  obtain ⟨a, b, hpoints, hweighs⟩ := edgeRow_weighs (h.ends e hmem) p
  obtain ⟨rfl, rfl⟩ := Mesh.pointAt_of_edgePoints hpoints
  obtain ⟨row, hrow, -, hrepresents⟩ := hweighs.represents (hreg.edges e hmem)
  exact ⟨row, by rw [rowOnEdge, he]; exact hrow, hrepresents⟩

theorem rowOnTriangle_represents (h : m.Consistent) (hreg : m.Regular) (p : Point ℝ) :
    Represented m p m.triangleFigures (rowOnTriangle m p) := by
  intro i f hf
  rw [Mesh.triangleFigures, List.getElem?_map] at hf
  obtain ⟨t, ht, rfl⟩ := Option.map_eq_some_iff.1 hf
  have hmem := List.mem_of_getElem? ht
  obtain ⟨a, b, c, hpoints, hweighs⟩ := triangleRow_weighs (h.corners_lt hmem) p
  obtain ⟨rfl, rfl, rfl⟩ := Mesh.pointAt_of_trianglePoints hpoints
  obtain ⟨row, hrow, -, hrepresents⟩ := hweighs.represents (hreg.triangles t hmem)
  exact ⟨row, by rw [rowOnTriangle, ht]; exact hrow, hrepresents⟩

/-! ## The row of a point -/

/-- The row that is left by the nearest figures of a mesh: in space that of a triangle, else that of
an edge, else the nearest vertex with weight one. -/
inductive Selected (m : Mesh ℝ) (dimensions : Nat) (p : Point ℝ)
    (triangles edges vertices : List (Hit ℝ)) : Row ℝ → Prop
  | triangle {h : Hit ℝ} {row : Row ℝ} (space : dimensions = 3)
      (settles : Settles m p m.triangleFigures (rowOnTriangle m p) triangles h row) :
      Selected m dimensions p triangles edges vertices row
  | edge {h : Hit ℝ} {row : Row ℝ}
      (missed : dimensions = 3 → Missed m.triangleFigures p triangles)
      (settles : Settles m p m.edgeFigures (rowOnEdge m p) edges h row) :
      Selected m dimensions p triangles edges vertices row
  | vertex (missedTriangles : dimensions = 3 → Missed m.triangleFigures p triangles)
      (missedEdges : Missed m.edgeFigures p edges) :
      Selected m dimensions p triangles edges vertices (vertices.map fun h => ⟨h.index, 1⟩)

section
variable [SearchOrder ℝ] [LawfulSearchOrder ℝ]

theorem edgeLocated_searches (h : m.Consistent) (hreg : m.Regular) (p : Point ℝ)
    {t : Search.Tree (Segment ℝ)} (ht : edgeTree m = .ok t) :
    Nearest m.edgeFigures p 4 (nearestSegments t p candidates) ∧
      Searches m p m.edgeFigures (rowOnEdge m p) (nearestSegments t p candidates)
        (edgeLocated m p) := by
  have hnearest : Nearest m.edgeFigures p 4 (nearestSegments t p candidates) :=
    (edges_depict h hreg ht p).nearest 4
  rw [edgeLocated, ht, ok_bind]
  exact ⟨hnearest, firstInside_searches (rowOnEdge_represents h hreg p) hnearest⟩

theorem triangleLocated_searches (h : m.Consistent) (hreg : m.Regular) (p : Point ℝ)
    {t : Search.Tree (Corners ℝ)} (ht : triangleTree m = .ok t) :
    Nearest m.triangleFigures p 4 (nearestTriangles t p candidates) ∧
      Searches m p m.triangleFigures (rowOnTriangle m p) (nearestTriangles t p candidates)
        (triangleLocated m p) := by
  have hnearest : Nearest m.triangleFigures p 4 (nearestTriangles t p candidates) :=
    (triangles_depict h hreg ht p).nearest 4
  rw [triangleLocated, ht, ok_bind]
  exact ⟨hnearest, firstInside_searches (rowOnTriangle_represents h hreg p) hnearest⟩

variable {triangles edges : List (Hit ℝ)} {dimensions : Nat}

theorem edgeOrVertexLocated_selects
    (hmissed : dimensions = 3 → Missed m.triangleFigures p triangles)
    (hedge : Searches m p m.edgeFigures (rowOnEdge m p) edges (edgeLocated m p)) :
    ∃ row, edgeOrVertexLocated m p = .ok row ∧ Selected m dimensions p triangles edges
      (nearestPoints (vertexTree m) p 1) row := by
  rw [edgeOrVertexLocated]
  rcases hedge with ⟨hnone, hmissed'⟩ | ⟨x, row, hsome, hsettles⟩
  · refine ⟨vertexLocated m p, by rw [hnone]; rfl, ?_⟩
    rw [vertexLocated_eq]
    exact .vertex hmissed hmissed'
  · exact ⟨row, by rw [hsome]; rfl, .edge hmissed hsettles⟩

theorem located_selects
    (htriangle : Searches m p m.triangleFigures (rowOnTriangle m p) triangles
      (triangleLocated m p))
    (hedge : Searches m p m.edgeFigures (rowOnEdge m p) edges (edgeLocated m p)) :
    ∃ row, located .nearestProjection dimensions m p = .ok row ∧
      Selected m dimensions p triangles edges (nearestPoints (vertexTree m) p 1) row := by
  unfold located
  dsimp only
  by_cases hd : dimensions = 3
  · rw [if_pos hd]
    rcases htriangle with ⟨hnone, hmissed⟩ | ⟨x, row, hsome, hsettles⟩
    · rw [hnone]
      exact edgeOrVertexLocated_selects (fun _ => hmissed) hedge
    · rw [hsome]
      exact ⟨row, rfl, .triangle hd hsettles⟩
  · rw [if_neg hd]
    exact edgeOrVertexLocated_selects (fun hd' => absurd hd' hd) hedge

/-- On a mesh without degenerate figures, the row of a point is selected from the triangles, edges
and vertices that an index of the mesh finds nearest. -/
theorem locate_selects {i : MeshIndex ℝ} (h : m.Consistent) (hi : i.Fresh m) (hreg : m.Regular)
    (dimensions : Nat) (p : Point ℝ) : ∃ triangles edges row i',
    (i.forTriangles m).map Prod.fst = .ok triangles ∧ (i.forEdges m).map Prod.fst = .ok edges ∧
    locate .nearestProjection dimensions m i p = .ok (row, i') ∧ i'.Fresh m ∧
    Nearest m.triangleFigures p 4 (nearestTriangles triangles p candidates) ∧
    Nearest m.edgeFigures p 4 (nearestSegments edges p candidates) ∧
    Nearest m.vertexFigures p 1 (nearestPoints (i.forVertices m).1 p 1) ∧
    Selected m dimensions p (nearestTriangles triangles p candidates)
      (nearestSegments edges p candidates) (nearestPoints (i.forVertices m).1 p 1) row := by
  obtain ⟨triangles, htriangles⟩ := triangleTree_total h.whole
  obtain ⟨edges, hedges⟩ := edgeTree_total h.whole
  obtain ⟨_, -, hT⟩ := hi.forTriangles
  obtain ⟨_, -, hE⟩ := hi.forEdges
  obtain ⟨_, -, hV⟩ := hi.forVertices
  obtain ⟨hnearT, htriangle⟩ := triangleLocated_searches h hreg p htriangles
  obtain ⟨hnearE, hedge⟩ := edgeLocated_searches h hreg p hedges
  have hnearV : Nearest m.vertexFigures p 1 (nearestPoints (vertexTree m) p 1) :=
    (vertices_depict h p).nearest 1
  obtain ⟨row, hrow, hselected⟩ := located_selects htriangle hedge
  obtain ⟨i', hi', hlocate⟩ := locate_fresh hi .nearestProjection dimensions p
  rw [hrow] at hlocate
  rw [hT, hE, hV, htriangles, hedges]
  exact ⟨triangles, edges, row, i', rfl, rfl, hlocate, hi', hnearT, hnearE, hnearV, hselected⟩

end

theorem tile_regular : tile.Regular where
  edges := by norm_num [tile, Mesh.pointAt, Point.norm2, Point.dot_eq]
  triangles := by norm_num [tile, Mesh.pointAt, Point.cross, Point.norm2, Point.dot_eq]

theorem tile_triangleFigures {i : Nat} {f : Figure} (hf : tile.triangleFigures[i]? = some f) :
    i = 0 ∧ f = .triangle ⟨0, 0, 0⟩ ⟨1, 0, 0⟩ ⟨0, 1, 0⟩ := by
  have hone : tile.triangleFigures = [.triangle ⟨0, 0, 0⟩ ⟨1, 0, 0⟩ ⟨0, 1, 0⟩] := rfl
  rw [hone, List.getElem?_singleton] at hf
  split at hf
  next hi => exact ⟨hi, (Option.some.inj hf).symm⟩
  next => cases hf

/-- Above the tile, the row is that of the triangle. -/
theorem locate_selects_tile : let _ : SearchOrder ℝ := .byIndex
    ∃ row i', locate .nearestProjection 3 tile {} ⟨1 / 4, 1 / 4, 3⟩ = .ok (row, i') ∧
      expressed tile row = ⟨1 / 4, 1 / 4, 0⟩ := by
  intro _
  have := byIndex_lawful
  obtain ⟨triangles, edges, row, i', -, -, hlocate, -, hnearest, -, -, hselected⟩ :=
    locate_selects tile_consistent (MeshIndex.fresh_empty tile) tile_regular 3 ⟨1 / 4, 1 / 4, 3⟩
  refine ⟨row, i', hlocate, ?_⟩
  have hfound : ¬ Missed tile.triangleFigures ⟨1 / 4, 1 / 4, 3⟩
      (nearestTriangles triangles ⟨1 / 4, 1 / 4, 3⟩ candidates) := by
    intro hmissed
    obtain ⟨x, hx⟩ := List.exists_mem_of_length_pos
      (hnearest.length.trans_gt (by show 0 < min 4 1; omega))
    obtain ⟨f, hf, -⟩ := hnearest.measured x hx
    obtain ⟨-, rfl⟩ := tile_triangleFigures hf
    exact hmissed x hx ⟨1 / 4, 1 / 4, 0⟩ ⟨_, hf, isProjection_tile _ _ _, quarter_mem_tile⟩
  cases hselected with
  | triangle _ hsettles =>
    obtain ⟨f, hf, hprojects, -⟩ := hsettles.falls
    obtain ⟨-, rfl⟩ := tile_triangleFigures hf
    exact hprojects.unique (isProjection_tile _ _ _)
  | edge hmissed _ => exact absurd (hmissed rfl) hfound
  | vertex hmissed _ => exact absurd (hmissed rfl) hfound

end Mapping

end Cosimulation

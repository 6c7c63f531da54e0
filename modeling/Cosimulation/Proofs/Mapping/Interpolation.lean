import Cosimulation.Proofs.Geometry.Projection
import Cosimulation.Proofs.Mapping.Transfer

/-!
# What a row expresses

A row stands for a point, the weighted sum of the positions of its vertices (`expressed`). If its
weights sum to one, then what is gathered with it from a field that is an affine function of the
position is the value of this function at that point (`Row.Affine.gathered_samples`).

The rows of an edge and of a triangle express the orthogonal projection of the point they are
computed for onto the line or plane, and their signs tell whether it falls within the edge or
triangle (`Represents`). They are refused exactly if the edge or triangle is too small
(`edgeRow_weighs`, `triangleRow_weighs`).
-/

namespace Cosimulation

/-- The position of a vertex of a mesh. -/
noncomputable def Mesh.pointAt (m : Mesh ℝ) (v : Nat) : Point ℝ :=
  (m.vertices[v]?.map Vertex.position).getD .origin

theorem Mesh.pointAt_of_vertexPoint {m : Mesh ℝ} {v : Nat} {x : Point ℝ}
    (h : m.vertexPoint v = .ok x) : m.pointAt v = x := by
  unfold Mesh.vertexPoint at h
  unfold Mesh.pointAt
  cases hv : m.vertices[v]? with
  | none =>
    rw [hv] at h
    cases h
  | some vertex =>
    rw [hv] at h
    exact Except.ok.inj h

theorem Mesh.pointAt_of_edgePoints {m : Mesh ℝ} {e : Edge} {a b : Point ℝ}
    (h : m.edgePoints e = .ok (a, b)) : m.pointAt e.ends.1 = a ∧ m.pointAt e.ends.2 = b := by
  obtain ⟨a', ha, h⟩ := bind_ok h
  obtain ⟨b', hb, h⟩ := bind_ok h
  obtain ⟨rfl, rfl⟩ := Prod.mk.inj (Except.ok.inj h)
  exact ⟨pointAt_of_vertexPoint ha, pointAt_of_vertexPoint hb⟩

theorem Mesh.pointAt_of_trianglePoints {m : Mesh ℝ} {t : Triangle} {a b c : Point ℝ}
    (h : m.trianglePoints t = .ok (a, b, c)) : m.pointAt t.corners.1 = a ∧
      m.pointAt t.corners.2.1 = b ∧ m.pointAt t.corners.2.2 = c := by
  obtain ⟨a', ha, h⟩ := bind_ok h
  obtain ⟨b', hb, h⟩ := bind_ok h
  obtain ⟨c', hc, h⟩ := bind_ok h
  obtain ⟨rfl, hrest⟩ := Prod.mk.inj (Except.ok.inj h)
  obtain ⟨rfl, rfl⟩ := Prod.mk.inj hrest
  exact ⟨pointAt_of_vertexPoint ha, pointAt_of_vertexPoint hb, pointAt_of_vertexPoint hc⟩

namespace Mapping

open Cosimulation.Geometry

variable {m : Mesh ℝ} {p : Point ℝ} {row : Row ℝ}

/-! ## Affine fields -/

/-- The point that a row expresses. -/
noncomputable def expressed (m : Mesh ℝ) (row : Row ℝ) : Point ℝ :=
  row.foldr (fun e sum => (m.pointAt e.vertex).scale e.weight + sum) .origin

/-- An affine function of the position. -/
def IsAffine (f : Point ℝ → ℝ) : Prop := ∃ (g : Point ℝ) (k : ℝ), ∀ x, f x = g.dot x + k

/-- A component of a field has the values of a function at the vertices. -/
def Samples (m : Mesh ℝ) (f : Point ℝ → ℝ) (values : Vec ℝ) (dimension c : Nat) : Prop :=
  ∀ v < m.vertices.length, component values dimension v c = f (m.pointAt v)

theorem sum_dot_expressed (m : Mesh ℝ) (g : Point ℝ) (k : ℝ) (row : Row ℝ) :
    (row.map fun e => e.weight * (g.dot (m.pointAt e.vertex) + k)).sum =
      g.dot (expressed m row) + k * (row.map Element.weight).sum := by
  induction row with
  | nil => simp [expressed, Point.origin, Point.dot_eq]
  | cons e row ih =>
    have hdot : g.dot (expressed m (e :: row)) =
        e.weight * g.dot (m.pointAt e.vertex) + g.dot (expressed m row) := by
      simp only [expressed, List.foldr_cons, Point.dot_eq, Point.add_x, Point.add_y, Point.add_z,
        Point.scale_x, Point.scale_y, Point.scale_z]
      ring
    rw [List.map_cons, List.sum_cons, ih, hdot, List.map_cons, List.sum_cons]
    ring

/-- An affine field is carried over to its value at the point that a row expresses. -/
theorem Row.Affine.gathered_samples (h : Row.Affine m.vertices.length row) {f : Point ℝ → ℝ}
    (hf : IsAffine f) {values : Vec ℝ} {dimension c : Nat} (hv : Samples m f values dimension c) :
    gathered row values dimension c = f (expressed m row) := by
  obtain ⟨g, k, hf⟩ := hf
  have hterm : ∀ e ∈ row, e.weight * component values dimension e.vertex c =
      e.weight * (g.dot (m.pointAt e.vertex) + k) := fun e he => by
    rw [hv e.vertex (h.refers e he), hf]
  rw [gathered_eq, List.map_congr_left hterm, sum_dot_expressed, h.total, mul_one, hf]

/-! ## Rows of a projection -/

/-- The row expresses the projection of a point onto a line or plane, and has no negative weight
exactly if it falls within a figure there. -/
structure Represents (m : Mesh ℝ) (p : Point ℝ) (flat filled : Set (Point ℝ)) (row : Row ℝ) :
    Prop where
  total : (row.map Element.weight).sum = 1
  projects : IsProjection p (expressed m row) flat
  interpolates : ∀ f, IsAffine f → ∀ values dimension c, Samples m f values dimension c →
    gathered row values dimension c = f (expressed m row)
  inside_iff : isInside row = true ↔ expressed m row ∈ filled

/-- The outcome is the row of the projection of a point, over the given vertices; it is refused
exactly if the figure is too small. -/
structure Weighs (m : Mesh ℝ) (p : Point ℝ) (flat filled : Set (Point ℝ)) (size : ℝ)
    (vertices : List Nat) (outcome : Except (Violation ℝ) (Option (Row ℝ))) : Prop where
  refused_iff : outcome = .ok none ↔ size ≤ 1e-30
  represents : 1e-30 < size → ∃ row, outcome = .ok (some row) ∧
    row.map Element.vertex = vertices ∧ Represents m p flat filled row

theorem represents_of_affine {flat filled : Set (Point ℝ)} (h : Row.Affine m.vertices.length row)
    (hprojects : IsProjection p (expressed m row) flat)
    (hinside : isInside row = true ↔ expressed m row ∈ filled) :
    Represents m p flat filled row where
  total := h.total
  projects := hprojects
  interpolates _ hf _ _ _ hv := h.gathered_samples hf hv
  inside_iff := hinside

/-- Refused or not, a row is weighed by what it is if it is not refused. -/
theorem weighs_of_ite {flat filled : Set (Point ℝ)} {size : ℝ} {vertices : List Nat}
    {outcome : Except (Violation ℝ) (Option (Row ℝ))}
    (houtcome : outcome = .ok (if size ≤ 1e-30 then none else some row))
    (hvertices : row.map Element.vertex = vertices)
    (hrow : 1e-30 < size → Represents m p flat filled row) :
    Weighs m p flat filled size vertices outcome where
  refused_iff := by
    rw [houtcome]
    split
    next h => exact iff_of_true rfl h
    next h => exact iff_of_false (by simp) h
  represents h := ⟨row, by rw [houtcome, if_neg h.not_ge], hvertices, hrow h⟩

theorem edgeRow_weighs {e : Edge}
    (h : e.ends.1 < m.vertices.length ∧ e.ends.2 < m.vertices.length) (p : Point ℝ) :
    ∃ a b, m.edgePoints e = .ok (a, b) ∧
      Weighs m p (linePoints a b) (segmentPoints a b) (b - a).norm2 [e.ends.1, e.ends.2]
        (edgeRow m e p) := by
  obtain ⟨⟨a, b⟩, hpoints⟩ := Search.edgePoints_total h
  obtain ⟨ha, hb⟩ := Mesh.pointAt_of_edgePoints hpoints
  obtain ⟨t, ht⟩ : ∃ t, t = (p - a).dot (b - a) / (b - a).norm2 := ⟨_, rfl⟩
  have houtcome : edgeRow m e p = .ok (if (b - a).norm2 ≤ 1e-30 then none
      else some [⟨e.ends.1, 1 - t⟩, ⟨e.ends.2, t⟩]) := by
    rw [edgeRow, hpoints, ok_bind]
    show Except.ok ((segmentParameter p a b).map _) = _
    rw [segmentParameter_eq, ht]
    split_ifs <;> rfl
  have hexpressed : expressed m [⟨e.ends.1, 1 - t⟩, ⟨e.ends.2, t⟩] =
      a.scale (1 - t) + b.scale t := by
    refine Point.ext ?_ ?_ ?_ <;> simp [expressed, ha, hb, Point.origin]
  refine ⟨a, b, hpoints, weighs_of_ite houtcome rfl fun hsize => ?_⟩
  have hlen : (b - a).norm2 ≠ 0 := (lt_trans (by norm_num) hsize).ne'
  refine represents_of_affine ⟨List.cons_ne_nil _ _, ?_, ?_⟩ ?_ ?_
  · simp [h]
  · simp
  · rw [hexpressed]
    exact isProjection_line hlen ht
  · rw [hexpressed, mem_segmentPoints_iff hlen]
    simp [isInside]

theorem triangleRow_weighs {t : Triangle} (h : t.corners.1 < m.vertices.length ∧
    t.corners.2.1 < m.vertices.length ∧ t.corners.2.2 < m.vertices.length) (p : Point ℝ) :
    ∃ a b c, m.trianglePoints t = .ok (a, b, c) ∧
      Weighs m p (planePoints a b c) (trianglePoints a b c) ((b - a).cross (c - a)).norm2
        [t.corners.1, t.corners.2.1, t.corners.2.2] (triangleRow m t p) := by
  obtain ⟨⟨a, b, c⟩, hpoints⟩ := Search.trianglePoints_total h
  obtain ⟨ha, hb, hc⟩ := Mesh.pointAt_of_trianglePoints hpoints
  obtain ⟨u, hu⟩ : ∃ u, u = inward p b c a / gram a b c := ⟨_, rfl⟩
  obtain ⟨v, hv⟩ : ∃ v, v = inward p c a b / gram a b c := ⟨_, rfl⟩
  obtain ⟨w, hw⟩ : ∃ w, w = inward p a b c / gram a b c := ⟨_, rfl⟩
  have houtcome : triangleRow m t p = .ok (if gram a b c ≤ 1e-30 then none
      else some [⟨t.corners.1, u⟩, ⟨t.corners.2.1, v⟩, ⟨t.corners.2.2, w⟩]) := by
    rw [triangleRow, hpoints, ok_bind]
    show Except.ok ((barycentric p a b c).map _) = _
    rw [barycentric_eq, hu, hv, hw]
    split_ifs <;> rfl
  have hexpressed : expressed m [⟨t.corners.1, u⟩, ⟨t.corners.2.1, v⟩, ⟨t.corners.2.2, w⟩] =
      a.scale u + b.scale v + c.scale w := by
    refine Point.ext ?_ ?_ ?_ <;> simp [expressed, ha, hb, hc, Point.origin, add_assoc]
  refine ⟨a, b, c, hpoints, weighs_of_ite houtcome rfl fun hsize => ?_⟩
  have harea : gram a b c ≠ 0 := (lt_trans (by norm_num) hsize).ne'
  have hsum : u + v + w = 1 := by
    rw [hu, hv, hw, ← add_div, ← add_div, inward_sum, div_self harea]
  refine represents_of_affine ⟨List.cons_ne_nil _ _, ?_, ?_⟩ ?_ ?_
  · simp [h]
  · simpa [add_assoc] using hsum
  · rw [hexpressed]
    exact isProjection_plane harea hu hv hw
  · rw [hexpressed, mem_trianglePoints_iff harea hsum]
    simp [isInside]

/-- The row of a point on an edge or triangle of a mesh expresses the projection of the point. -/
theorem rows_project (h : m.Consistent) (p : Point ℝ) :
    (∀ e ∈ m.edges, ∃ a b, m.edgePoints e = .ok (a, b) ∧
      Weighs m p (linePoints a b) (segmentPoints a b) (b - a).norm2 [e.ends.1, e.ends.2]
        (edgeRow m e p)) ∧
    ∀ t ∈ m.triangles, ∃ a b c, m.trianglePoints t = .ok (a, b, c) ∧
      Weighs m p (planePoints a b c) (trianglePoints a b c) ((b - a).cross (c - a)).norm2
        [t.corners.1, t.corners.2.1, t.corners.2.2] (triangleRow m t p) :=
  ⟨fun e he => edgeRow_weighs (h.ends e he) p, fun _ ht => triangleRow_weighs (h.corners_lt ht) p⟩

/-- A right triangle at the origin. -/
noncomputable def tile : Mesh ℝ where
  id := 0
  name := "tile"
  dimensions := 3
  vertices := [{ id := 0, position := ⟨0, 0, 0⟩ }, { id := 1, position := ⟨1, 0, 0⟩ },
    { id := 2, position := ⟨0, 1, 0⟩ }]
  edges := [⟨0, (0, 1)⟩, ⟨1, (1, 2)⟩, ⟨2, (2, 0)⟩]
  triangles := [⟨0, (0, 1, 2), (0, 1, 2)⟩]

theorem tile_consistent : tile.Consistent where
  dimensions := .inr rfl
  flat := nofun
  vertexIds := rfl
  edgeIds := rfl
  triangleIds := rfl
  ends := by simp [tile]
  corners := by simp [tile, Mesh.corners?, closedTriangle?, isEnd, otherEnd]

/-- The point below is the projection onto the plane of the tile. -/
theorem isProjection_tile (x y z : ℝ) :
    IsProjection ⟨x, y, z⟩ ⟨x, y, 0⟩ (planePoints ⟨0, 0, 0⟩ ⟨1, 0, 0⟩ ⟨0, 1, 0⟩) where
  mem := ⟨1 - x - y, x, y, by ring, by refine Point.ext ?_ ?_ ?_ <;> simp⟩
  normal := by
    rintro _ ⟨u, v, w, -, rfl⟩
    simp [Point.dot_eq]

theorem quarter_mem_tile :
    (⟨1 / 4, 1 / 4, 0⟩ : Point ℝ) ∈ trianglePoints ⟨0, 0, 0⟩ ⟨1, 0, 0⟩ ⟨0, 1, 0⟩ := by
  refine ⟨1 / 2, 1 / 4, 1 / 4, by norm_num, by norm_num, by norm_num, by norm_num, ?_⟩
  refine Point.ext ?_ ?_ ?_ <;> simp

theorem rows_project_tile : let p : Point ℝ := ⟨1 / 4, 1 / 4, 3⟩
    ∃ row, triangleRow tile ⟨0, (0, 1, 2), (0, 1, 2)⟩ p = .ok (some row) ∧
      row.map Element.vertex = [0, 1, 2] ∧ (row.map Element.weight).sum = 1 ∧
      expressed tile row = ⟨1 / 4, 1 / 4, 0⟩ ∧ isInside row = true := by
  intro p
  obtain ⟨a, b, c, hpoints, hweighs⟩ :=
    (rows_project tile_consistent p).2 _ (List.mem_singleton_self _)
  obtain ⟨rfl, hrest⟩ := Prod.mk.inj (Except.ok.inj hpoints)
  obtain ⟨rfl, rfl⟩ := Prod.mk.inj hrest
  obtain ⟨row, hrow, hvertices, hrepresents⟩ := hweighs.represents
    (by norm_num [Point.cross, Point.norm2, Point.dot_eq])
  have hpoint : expressed tile row = ⟨1 / 4, 1 / 4, 0⟩ :=
    hrepresents.projects.unique (isProjection_tile _ _ _)
  refine ⟨row, hrow, hvertices, hrepresents.total, hpoint, hrepresents.inside_iff.mpr ?_⟩
  rw [hpoint]
  exact quarter_mem_tile

end Mapping

end Cosimulation

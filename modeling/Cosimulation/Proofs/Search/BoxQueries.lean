import Cosimulation.Proofs.Geometry.Boxes
import Cosimulation.Proofs.Search.Fresh

/-!
# Vertices in a box

A box query looks for the points of the envelope of a box. On a mesh whose vertices carry their
positions as IDs it lists the positions of these vertices in ascending order, in whatever order the
tree has come across them (`lists_pointsInBox`, `mergeSort_located`).

The envelope of a box in order contains the points of the box. A box that was turned inside out
contains no point, but the query still finds the vertices between its corners, so the query answers
for the box exactly if the box is in order or nothing is found (`pointsInBox_agrees`).

The boxes that are used to leave out far vertices are in order. The bounding box of a mesh leaves
out no vertex, and whoever compares the boxes of two meshes, or asks for a box around a ball, misses
no vertex that is near (`boundingBox_misses_none`).
-/

namespace Cosimulation

/-- The positions, in ascending order, of the vertices at points with a property. -/
structure Mesh.Lists {α : Type} (m : Mesh α) (inside : Point α → Prop) (found : List Nat) :
    Prop where
  ascending : found.Pairwise (· < ·)
  mem_iff : ∀ v, v ∈ found ↔ ∃ vertex, m.vertices[v]? = some vertex ∧ inside vertex.position

namespace Mesh.Lists

variable {α : Type} {m : Mesh α} {inside inside' : Point α → Prop} {found : List Nat}

theorem congr (h : m.Lists inside found) (hinside : ∀ p, inside p ↔ inside' p) :
    m.Lists inside' found :=
  ⟨h.ascending, fun v => by simp only [h.mem_iff, hinside]⟩

/-- Nothing is listed exactly if no vertex has the property. -/
theorem eq_nil_iff (h : m.Lists inside found) :
    found = [] ↔ ∀ vertex ∈ m.vertices, ¬ inside vertex.position := by
  simp only [List.eq_nil_iff_forall_not_mem, h.mem_iff, not_exists, not_and]
  refine ⟨fun hnone vertex hvertex => ?_, fun hnone v vertex hv =>
    hnone vertex (List.mem_of_getElem? hv)⟩
  obtain ⟨v, hv⟩ := List.mem_iff_getElem?.1 hvertex
  exact hnone v vertex hv

end Mesh.Lists

namespace Search

variable {α : Type} [Scalar α] {m : Mesh α} {i : MeshIndex α} {b : Box α}

/-- The query lists the vertices in the envelope. -/
theorem lists_pointsInBox (hm : m.Consistent) (b : Box α) :
    m.Lists (fun p => b.envelope.contains p = true) (pointsInBox (vertexTree m) b) where
  ascending := by
    have hids : (vertexTree m).entries.map Prod.fst = List.range m.vertices.length := by
      rw [vertexTree, List.map_map]
      exact hm.vertexIds
    refine List.Pairwise.sublist (List.filter_sublist.map Prod.fst) ?_
    rw [hids]
    exact List.pairwise_lt_range
  mem_iff v := by
    simp only [pointsInBox, vertexTree, List.mem_map, List.mem_filter]
    constructor
    · rintro ⟨_, ⟨⟨vertex, hvertex, rfl⟩, hinside⟩, rfl⟩
      exact ⟨vertex, getElem?_id hm.vertexIds hvertex, hinside⟩
    · rintro ⟨vertex, hv, hinside⟩
      exact ⟨_, ⟨⟨vertex, List.mem_of_getElem? hv, rfl⟩, hinside⟩, id_of_range hm.vertexIds hv⟩

/-- To sort what the tree has found gives the answer, in whatever order it was found. -/
theorem mergeSort_located {t : Tree (Point α)} {located : List (Nat × Point α)}
    (hlocated : located.Perm (t.entries.filter fun (_, p) => b.envelope.contains p))
    (hascending : (pointsInBox t b).Pairwise (· < ·)) :
    (located.map Prod.fst).mergeSort = pointsInBox t b := by
  have hperm : ((located.map Prod.fst).mergeSort).Perm (pointsInBox t b) :=
    (List.mergeSort_perm _ _).trans (hlocated.map Prod.fst)
  refine hperm.eq_of_pairwise (fun _ _ _ _ => Nat.le_antisymm) ?_ (hascending.imp Nat.le_of_lt)
  exact (List.pairwise_mergeSort' (· ≤ ·) _)

section
variable [LawfulComparison α]

/-- The answer lists the vertices in a box exactly if the box is in order or nothing is found. -/
theorem lists_contained_iff {found : List Nat}
    (h : m.Lists (fun p => b.envelope.contains p = true) found) :
    m.Lists (fun p => b.contains p = true) found ↔ b.Ordered ∨ found = [] := by
  by_cases hb : b.Ordered
  · exact iff_of_true (h.congr fun _ => hb.contains_envelope_iff) (.inl hb)
  · have hoff (p : Point α) : ¬ b.contains p = true := mt Box.ordered_of_contains hb
    rw [or_iff_right hb]
    refine ⟨fun hcontained => hcontained.eq_nil_iff.2 fun vertex _ => hoff vertex.position, ?_⟩
    rintro rfl
    exact ⟨.nil, fun v => iff_of_false List.not_mem_nil fun ⟨_, _, hinside⟩ => hoff _ hinside⟩

/-- A box query on an up-to-date index lists the vertices in the envelope of the box, by position,
in whatever order the tree finds them. This is what the box contains exactly if the box is in order
or nothing is found; and a box is in order if it was built so, or put in order by a step, and no
step turned it inside out. -/
theorem pointsInBox_agrees (hm : m.Consistent) (hi : i.Fresh m) (start : Box α)
    (steps : List (Box.Step α)) :
    let tree := (i.forVertices m).1
    let b := start.afterAll steps
    (∀ located : List (Nat × Point α),
      located.Perm (tree.entries.filter fun (_, p) => b.envelope.contains p) →
        (located.map Prod.fst).mergeSort = pointsInBox tree b) ∧
    m.Lists (fun p => b.envelope.contains p = true) (pointsInBox tree b) ∧
    (m.Lists (fun p => b.contains p = true) (pointsInBox tree b) ↔
      b.Ordered ∨ pointsInBox tree b = []) ∧
    (start.Ordered ∨ (∃ s ∈ steps, s.Orders) → start.KeepsAll steps →
      m.Lists (fun p => b.contains p = true) (pointsInBox tree b)) := by
  intro tree b
  obtain ⟨i', -, hfor⟩ := hi.forVertices
  have htree : tree = vertexTree m := congrArg Prod.fst hfor
  have hlists := lists_pointsInBox hm b
  rw [← htree] at hlists
  refine ⟨fun located hlocated => mergeSort_located hlocated hlists.ascending, hlists,
    lists_contained_iff hlists, fun hstart hsteps => ?_⟩
  exact (lists_contained_iff hlists).2 (.inl (Box.ordered_afterAll hstart hsteps))

end

/-- Two corners of the unit cube. -/
def corners (α : Type) [Scalar α] : Mesh α where
  id := 0
  name := "corners"
  dimensions := 3
  vertices := [{ id := 0, position := ⟨0, 0, 0⟩ }, { id := 1, position := ⟨1, 1, 1⟩ }]

theorem corners_consistent : (corners α).Consistent where
  dimensions := .inr rfl
  flat := nofun
  vertexIds := rfl
  edgeIds := rfl
  triangleIds := rfl
  ends := by simp [corners]
  corners := by simp [corners]

/-- The unit cube contains both corners. With every face moved inwards by one it contains none, but
both are found. -/
theorem pointsInBox_agrees_shrunk : let cube : Box Double := ⟨⟨0, 0, 0⟩, ⟨1, 1, 1⟩⟩
    let m := corners Double
    m.Lists (fun p => cube.contains p = true) (pointsInBox (vertexTree m) cube) ∧
    pointsInBox (vertexTree m) (cube.expand (-1)) = [0, 1] ∧
    ¬ m.Lists (fun p => (cube.expand (-1)).contains p = true) [0, 1] := by
  intro cube m
  obtain ⟨-, -, -, hcube⟩ :=
    pointsInBox_agrees corners_consistent (MeshIndex.fresh_empty m) cube []
  obtain ⟨-, -, hshrunk, -⟩ :=
    pointsInBox_agrees corners_consistent (MeshIndex.fresh_empty m) cube [.expand (-1)]
  have hordered : cube.Ordered := by
    intro a
    cases a <;> decide
  have hinverted : ¬ (cube.expand (-1)).Ordered := fun h => absurd (h .x) (by decide)
  have hfound : pointsInBox (vertexTree m) (cube.expand (-1)) = [0, 1] := by decide
  refine ⟨hcube (.inl hordered) trivial, hfound, fun hlists => ?_⟩
  have hcases := hshrunk.1 (hfound ▸ hlists)
  exact hcases.elim hinverted fun hnil => List.cons_ne_nil _ _ (hfound.symm.trans hnil)

/-! ## Boxes over real numbers -/

theorem exists_boundingBox {m : Mesh ℝ} (hm : m.vertices ≠ []) : ∃ b, m.boundingBox? = some b ∧
    IsLeast {c : Box ℝ | ∀ v ∈ m.vertices, c.contains v.position = true} b := by
  have hne : m.vertices.map Vertex.position ≠ [] := mt List.map_eq_nil_iff.1 hm
  obtain ⟨b, hb, hspans⟩ := Box.ofPoints?_spans hne
  have hleast := hspans.isLeast
  simp only [List.forall_mem_map] at hleast
  exact ⟨b, hb, hleast⟩

theorem contains_of_boundingBox {m : Mesh ℝ} {b : Box ℝ} (hb : m.boundingBox? = some b)
    {v : Vertex ℝ} (hv : v ∈ m.vertices) : b.contains v.position = true := by
  obtain ⟨b', hb', hleast⟩ := exists_boundingBox (List.ne_nil_of_mem hv)
  obtain rfl := Option.some.inj (hb.symm.trans hb')
  exact hleast.1 v hv

/-- The box query for the box around a ball finds the vertices in the ball. -/
theorem mem_pointsInBox_enclosing {m : Mesh ℝ} (hm : m.Consistent) {p : Point ℝ} {radius : ℝ}
    {v : Nat} {vertex : Vertex ℝ} (hv : m.vertices[v]? = some vertex)
    (hnear : √(p.distance2 vertex.position) ≤ radius) :
    v ∈ pointsInBox (vertexTree m) (.enclosing p radius) := by
  have hinside := Box.contains_enclosing hnear
  have hordered := Box.ordered_of_contains hinside
  exact ((lists_pointsInBox hm _).mem_iff v).2
    ⟨vertex, hv, hordered.contains_envelope_iff.2 hinside⟩

/-- The bounding box of a mesh is the least box that contains its vertices, and that of a mesh in
two parts is the bounding box of the one part grown to that of the other. Where the bounding box of
a mesh, moved outwards, does not reach that of another mesh, no two vertices are within that
distance; and no vertex that is within a distance of a point is missed by a query for the box around
the point. -/
theorem boundingBox_misses_none :
    (∀ m : Mesh ℝ, m.vertices = [] ∧ m.boundingBox? = none ∨ ∃ b, m.boundingBox? = some b ∧
      IsLeast {c : Box ℝ | ∀ v ∈ m.vertices, c.contains v.position = true} b) ∧
    (∀ whole part rest : Mesh ℝ, (whole.vertices.map Vertex.position).Perm
        (part.vertices.map Vertex.position ++ rest.vertices.map Vertex.position) →
      part.vertices ≠ [] → rest.vertices ≠ [] →
      ∃ b c, part.boundingBox? = some b ∧ rest.boundingBox? = some c ∧
        whole.boundingBox? = some (b.merge c)) ∧
    (∀ (m m' : Mesh ℝ) (b b' : Box ℝ) (radius : ℝ), m.boundingBox? = some b →
      m'.boundingBox? = some b' → (b.expand radius).intersects b' = false →
      ∀ v ∈ m.vertices, ∀ v' ∈ m'.vertices, radius < √(v.position.distance2 v'.position)) ∧
    (∀ (m : Mesh ℝ) (i : MeshIndex ℝ) (p : Point ℝ) (radius : ℝ), m.Consistent → i.Fresh m →
      ∀ v vertex, m.vertices[v]? = some vertex → √(p.distance2 vertex.position) ≤ radius →
        v ∈ pointsInBox (i.forVertices m).1 (.enclosing p radius)) := by
  refine ⟨fun m => ?least, fun whole part rest hwhole hpart hrest => ?split,
    fun m m' b b' radius hb hb' hapart v hv v' hv' => ?apart,
    fun m i p radius hm hi v vertex hv hnear => ?ball⟩
  case least =>
    rcases eq_or_ne m.vertices [] with hnil | hne
    · exact .inl ⟨hnil, by rw [Mesh.boundingBox?, hnil, List.map_nil, Box.ofPoints?]⟩
    · exact .inr (exists_boundingBox hne)
  case split =>
    exact Box.ofPoints?_merge hwhole (mt List.map_eq_nil_iff.1 hpart)
      (mt List.map_eq_nil_iff.1 hrest)
  case apart =>
    exact Box.lt_distance_of_not_intersects (contains_of_boundingBox hb hv)
      (contains_of_boundingBox hb' hv') hapart
  case ball =>
    obtain ⟨i', -, hfor⟩ := hi.forVertices
    rw [hfor]
    exact mem_pointsInBox_enclosing hm hv hnear

/-- The bounding box of the two corners is that of the one grown to that of the other. Moved
outwards by one half, the box of the one corner does not reach the other, which is farther away than
that; it is found in the box around the ball of radius two. -/
theorem boundingBox_misses_none_corners :
    let m := corners ℝ
    let one : Box ℝ := ⟨⟨0, 0, 0⟩, ⟨0, 0, 0⟩⟩
    let other : Box ℝ := ⟨⟨1, 1, 1⟩, ⟨1, 1, 1⟩⟩
    m.boundingBox? = some (one.merge other) ∧
    IsLeast {c : Box ℝ | ∀ v ∈ m.vertices, c.contains v.position = true} (one.merge other) ∧
    (2⁻¹ : ℝ) < √(Point.distance2 ⟨0, 0, 0⟩ ⟨1, 1, 1⟩) ∧
    1 ∈ pointsInBox (vertexTree m) (.enclosing ⟨0, 0, 0⟩ 2) := by
  intro m one other
  obtain ⟨hleast, hsplit, hapart, hball⟩ := boundingBox_misses_none
  obtain ⟨b, c, hb, hc, hmerge⟩ := hsplit m { m with vertices := m.vertices.take 1 }
    { m with vertices := m.vertices.drop 1 } (.refl _) (List.cons_ne_nil _ _)
    (List.cons_ne_nil _ _)
  obtain rfl : one = b := Option.some.inj hb
  obtain rfl : other = c := Option.some.inj hc
  have hmin : IsLeast {c : Box ℝ | ∀ v ∈ m.vertices, c.contains v.position = true}
      (one.merge other) := by
    obtain ⟨hnil, -⟩ | ⟨d, hd, hmin⟩ := hleast m
    · exact absurd hnil (List.cons_ne_nil _ _)
    · obtain rfl := Option.some.inj (hmerge.symm.trans hd)
      exact hmin
  have hoff : (one.expand 2⁻¹).intersects other = false := by
    refine Bool.eq_false_iff.2 fun h => ?_
    have hx : (1 : ℝ) ≤ 0 + 2⁻¹ := (Box.intersects_iff.1 h .x).2
    norm_num at hx
  have hnear : √(Point.distance2 (⟨0, 0, 0⟩ : Point ℝ) ⟨1, 1, 1⟩) ≤ 2 := by
    refine Real.sqrt_le_iff.2 ⟨by norm_num, ?_⟩
    simp only [Point.distance2, Point.norm2, Point.dot_eq, Point.sub_x, Point.sub_y, Point.sub_z]
    norm_num
  exact ⟨hmerge, hmin,
    hapart _ _ one other _ hb hc hoff _ List.mem_cons_self _ List.mem_cons_self,
    hball m { } ⟨0, 0, 0⟩ 2 corners_consistent (MeshIndex.fresh_empty m) 1 _ rfl hnear⟩

end Search

end Cosimulation

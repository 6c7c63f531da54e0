import Cosimulation.Mapping.Locate
import Cosimulation.Proofs.Search.Fresh

/-!
# Rows of weights that sum to one

The weights of a projection onto an edge or a triangle sum to one wherever the projection falls
(`Row.Affine`), and it falls inside if none of them is negative (`Row.Convex`).

`located` is the row of a point among the shapes of a mesh as they are. A mesh has a row for every
point, however many of its edges and triangles are degenerate: the nearest vertex is what is left in
the end (`located_total`). Whatever the rows on the shapes of a mesh have in common if they lie
inside (`Rows`), the row of the point has, since `firstInside` accepts no other. They refer to the
vertices of the mesh (`rows_within`), and in exact arithmetic they are convex (`rows_convex`).
-/

namespace Cosimulation.Mapping

open Search

/-- A row that refers to the first `count` vertices, with weights that sum to one. -/
structure Row.Affine (count : Nat) (row : Row ℝ) : Prop where
  nonempty : row ≠ []
  refers : ∀ e ∈ row, e.vertex < count
  total : (row.map Element.weight).sum = 1

/-- A row of weights that sum to one, none of them negative. -/
structure Row.Convex (count : Nat) (row : Row ℝ) : Prop extends Row.Affine count row where
  nonneg : ∀ e ∈ row, 0 ≤ e.weight

section
variable {α : Type} [Scalar α] {m : Mesh α}

/-- If its ends are there, an edge has the row of the projection onto it. -/
theorem edgeRow_eq {e : Edge}
    (h : e.ends.1 < m.vertices.length ∧ e.ends.2 < m.vertices.length) (p : Point α) :
    ∃ a b, edgeRow m e p = .ok ((Geometry.segmentParameter p a b).map fun t =>
      [⟨e.ends.1, 1 - t⟩, ⟨e.ends.2, t⟩]) := by
  obtain ⟨⟨a, b⟩, hpoints⟩ := edgePoints_total h
  exact ⟨a, b, by rw [edgeRow, hpoints, ok_bind]; rfl⟩

/-- If its corners are there, a triangle has the row of the projection onto it. -/
theorem triangleRow_eq {t : Triangle} (h : t.corners.1 < m.vertices.length ∧
    t.corners.2.1 < m.vertices.length ∧ t.corners.2.2 < m.vertices.length) (p : Point α) :
    ∃ a b c, triangleRow m t p = .ok ((Geometry.barycentric p a b c).map fun (u, v, w) =>
      [⟨t.corners.1, u⟩, ⟨t.corners.2.1, v⟩, ⟨t.corners.2.2, w⟩]) := by
  obtain ⟨⟨a, b, c⟩, hpoints⟩ := trianglePoints_total h
  exact ⟨a, b, c, by rw [triangleRow, hpoints, ok_bind]; rfl⟩

end

section
variable {m : Mesh ℝ} {count : Nat}

theorem vertexRow_convex {v : Nat} (h : v < count) : Row.Convex count (vertexRow v) where
  nonempty := List.cons_ne_nil _ _
  refers e he := by
    rw [List.mem_singleton.1 he]
    exact h
  total := List.sum_singleton
  nonneg e he := by
    rw [List.mem_singleton.1 he]
    exact zero_le_one

theorem edgeRow_total {e : Edge}
    (h : e.ends.1 < m.vertices.length ∧ e.ends.2 < m.vertices.length) (p : Point ℝ) :
    ∃ r, edgeRow m e p = .ok r ∧ ∀ row, r = some row → Row.Affine m.vertices.length row := by
  obtain ⟨a, b, heq⟩ := edgeRow_eq h p
  refine ⟨_, heq, fun row hrow => ?_⟩
  obtain ⟨t, -, rfl⟩ := Option.map_eq_some_iff.1 hrow
  refine ⟨List.cons_ne_nil _ _, ?_, ?_⟩
  · simp [h]
  · simp

theorem triangleRow_total {t : Triangle} (h : t.corners.1 < m.vertices.length ∧
    t.corners.2.1 < m.vertices.length ∧ t.corners.2.2 < m.vertices.length) (p : Point ℝ) :
    ∃ r, triangleRow m t p = .ok r ∧ ∀ row, r = some row → Row.Affine m.vertices.length row := by
  obtain ⟨a, b, c, heq⟩ := triangleRow_eq h p
  refine ⟨_, heq, fun row hrow => ?_⟩
  obtain ⟨⟨u, v, w⟩, hweights, rfl⟩ := Option.map_eq_some_iff.1 hrow
  have hsum : u + v + w = 1 := by
    unfold Geometry.barycentric at hweights
    dsimp only at hweights
    split at hweights
    next => cases hweights
    next =>
      obtain ⟨rfl, hvw⟩ := Prod.mk.inj (Option.some.inj hweights)
      obtain ⟨rfl, rfl⟩ := Prod.mk.inj hvw
      ring
  refine ⟨List.cons_ne_nil _ _, ?_, ?_⟩
  · simp [h]
  · simpa [add_assoc] using hsum

theorem convex_of_isInside {row : Row ℝ} (h : Row.Affine count row) (hin : isInside row = true) :
    Row.Convex count row :=
  { h with nonneg := fun e he => of_decide_eq_true (List.all_eq_true.1 hin e he) }

end

/-! ## Rows on a mesh as it is -/

section
variable {α : Type} [Scalar α] [SearchOrder α]

/-- The row of the vertex that is nearest to a point. -/
def vertexLocated (m : Mesh α) (p : Point α) : Row α :=
  match nearestPoints (vertexTree m) p 1 with
  | h :: _ => vertexRow h.index
  | [] => []

/-- The row of the first near triangle that contains the projection of a point. -/
def triangleLocated (m : Mesh α) (p : Point α) : Except (Violation α) (Option (Row α)) := do
  firstInside (rowOnTriangle m p) (nearestTriangles (← triangleTree m) p candidates)

/-- The row of the first near edge that contains the projection of a point. -/
def edgeLocated (m : Mesh α) (p : Point α) : Except (Violation α) (Option (Row α)) := do
  firstInside (rowOnEdge m p) (nearestSegments (← edgeTree m) p candidates)

/-- The row of an edge or, failing that, of the nearest vertex. -/
def edgeOrVertexLocated (m : Mesh α) (p : Point α) : Except (Violation α) (Row α) := do
  return (← edgeLocated m p).getD (vertexLocated m p)

/-- The row of a point on a mesh. -/
def located (method : Method) (dimensions : Nat) (m : Mesh α) (p : Point α) :
    Except (Violation α) (Row α) :=
  match method with
  | .nearestNeighbor => .ok (vertexLocated m p)
  | .nearestProjection =>
    if dimensions = 3 then do
      match ← triangleLocated m p with
      | some row => return row
      | none => edgeOrVertexLocated m p
    else edgeOrVertexLocated m p

end

/-- What the rows of a point on the vertices, edges and triangles of a mesh have in common, those on
edges and triangles as far as they lie inside. -/
structure Rows {α : Type} [Scalar α] (m : Mesh α) (p : Point α) (P : Row α → Prop) : Prop where
  vertex : ∀ v < m.vertices.length, P (vertexRow v)
  edge : ∀ e ∈ m.edges, ∃ r, edgeRow m e p = .ok r ∧
    ∀ row, r = some row → isInside row = true → P row
  triangle : ∀ t ∈ m.triangles, ∃ r, triangleRow m t p = .ok r ∧
    ∀ row, r = some row → isInside row = true → P row

section
variable {α : Type} [Scalar α] {P : Row α → Prop} {m : Mesh α} {p : Point α}

/-- The first row that lies inside has what all rows have that do. -/
theorem firstInside_total {row : Nat → Except (Violation α) (Option (Row α))} :
    ∀ {hits : List (Hit α)}, (∀ h ∈ hits, ∃ r, row h.index = .ok r ∧
      ∀ s, r = some s → isInside s = true → P s) →
    ∃ r, firstInside row hits = .ok r ∧ ∀ s, r = some s → P s := by
  intro hits
  induction hits with
  | nil => exact fun _ => ⟨none, rfl, nofun⟩
  | cons x hits ih =>
    intro h
    obtain ⟨r, hr, hinside⟩ := h x List.mem_cons_self
    obtain ⟨later, hlater, hrest⟩ := ih fun y hy => h y (List.mem_cons_of_mem _ hy)
    rw [firstInside, hr, ok_bind]
    cases r with
    | none => exact ⟨later, hlater, hrest⟩
    | some s =>
      by_cases hin : isInside s = true
      · refine ⟨some s, if_pos hin, fun s' hs' => ?_⟩
        obtain rfl := Option.some.inj hs'
        exact hinside s rfl hin
      · exact ⟨later, (if_neg hin).trans hlater, hrest⟩

variable [SearchOrder α] [LawfulSearchOrder α]

/-- The row of the nearest vertex gives it weight one. -/
theorem vertexLocated_eq (m : Mesh α) (p : Point α) :
    vertexLocated m p = (nearestPoints (vertexTree m) p 1).map fun h => ⟨h.index, 1⟩ := by
  have hlen : (nearestPoints (vertexTree m) p 1).length ≤ 1 :=
    length_nearest.trans_le (min_le_left _ _)
  unfold vertexLocated
  split
  next h hs heq =>
    rw [heq, List.length_cons] at hlen
    have hnil : hs = [] := List.length_eq_zero_iff.1 (by omega)
    rw [heq, hnil]
    rfl
  next heq => rw [heq]; rfl

/-- The nearest vertex is one of the mesh. -/
theorem vertexLocated_total (h : m.Consistent) (hrows : Rows m p P) :
    P (vertexLocated m p) ∨ m.vertices = [] ∧ vertexLocated m p = [] := by
  unfold vertexLocated
  split
  next x xs hx =>
    have hmem : x ∈ nearestPoints (vertexTree m) p 1 := hx ▸ List.mem_cons_self
    obtain ⟨q, hq⟩ := mem_nearest hmem
    obtain ⟨v, hv, heq⟩ := List.mem_map.1 hq
    have hid := getElem?_id h.vertexIds hv
    rw [(Prod.mk.inj heq).1] at hid
    exact .inl (hrows.vertex _ (List.getElem?_eq_some_iff.1 hid).1)
  next hnil =>
    refine .inr ⟨by_contra fun hne => ?_, rfl⟩
    have hentries : (vertexTree m).entries ≠ [] := mt List.map_eq_nil_iff.1 hne
    exact nearest_ne_nil hentries Nat.one_pos hnil

theorem edgeLocated_total (h : m.Consistent) (hrows : Rows m p P) :
    ∃ r, edgeLocated m p = .ok r ∧ ∀ row, r = some row → P row := by
  obtain ⟨t, ht⟩ := edgeTree_total h.whole
  rw [edgeLocated, ht, ok_bind]
  refine firstInside_total fun x hx => ?_
  obtain ⟨s, hs⟩ := mem_nearest hx
  obtain ⟨e, he, hid, -⟩ := mem_edgeTree ht hs
  have hget := getElem?_id h.edgeIds he
  rw [hid] at hget
  rw [rowOnEdge, hget]
  exact hrows.edge e he

/-- A point whose projection falls within the only edge of a mesh has the row of this edge. -/
theorem edgeLocated_only (h : m.Consistent) {e : Edge} (honly : m.edges = [e]) {row : Row α}
    (hrow : edgeRow m e p = .ok (some row)) (hin : isInside row = true) :
    edgeLocated m p = .ok (some row) := by
  obtain ⟨t, ht⟩ := edgeTree_total h.whole
  have hentries : t.entries.length = 1 := by
    rw [← List.length_map Prod.fst, map_fst_edgeTree ht, honly]
    rfl
  obtain ⟨x, hx⟩ : ∃ x, nearestSegments t p candidates = [x] :=
    List.length_eq_one_iff.1 (length_nearest.trans (by rw [hentries]; rfl))
  have hmem : x ∈ nearestSegments t p candidates := hx ▸ List.mem_singleton_self x
  obtain ⟨s, hs⟩ := mem_nearest hmem
  obtain ⟨e', he', hid, -⟩ := mem_edgeTree ht hs
  have hget := getElem?_id h.edgeIds he'
  obtain rfl := List.mem_singleton.1 (honly ▸ he')
  rw [hid] at hget
  rw [edgeLocated, ht, ok_bind, hx, firstInside, rowOnEdge, hget]
  dsimp only
  rw [hrow, ok_bind]
  exact if_pos hin

theorem triangleLocated_total (h : m.Consistent) (hrows : Rows m p P) :
    ∃ r, triangleLocated m p = .ok r ∧ ∀ row, r = some row → P row := by
  obtain ⟨t, ht⟩ := triangleTree_total h.whole
  rw [triangleLocated, ht, ok_bind]
  refine firstInside_total fun x hx => ?_
  obtain ⟨s, hs⟩ := mem_nearest hx
  obtain ⟨e, he, hid, -⟩ := mem_triangleTree ht hs
  have hget := getElem?_id h.triangleIds he
  rw [hid] at hget
  rw [rowOnTriangle, hget]
  exact hrows.triangle e he

theorem edgeOrVertexLocated_total (h : m.Consistent) (hrows : Rows m p P) :
    ∃ row, edgeOrVertexLocated m p = .ok row ∧ (P row ∨ m.vertices = [] ∧ row = []) := by
  obtain ⟨r, hr, hedge⟩ := edgeLocated_total h hrows
  rw [edgeOrVertexLocated, hr, ok_bind]
  cases r with
  | none => exact ⟨_, rfl, vertexLocated_total h hrows⟩
  | some row => exact ⟨row, rfl, .inl (hedge row rfl)⟩

/-- Every point has a row on a mesh; it is empty only if the mesh has no vertices. -/
theorem located_total (h : m.Consistent) (hrows : Rows m p P) (method : Method)
    (dimensions : Nat) : ∃ row, located method dimensions m p = .ok row ∧
      (P row ∨ m.vertices = [] ∧ row = []) := by
  cases method with
  | nearestNeighbor => exact ⟨_, rfl, vertexLocated_total h hrows⟩
  | nearestProjection =>
    unfold located
    dsimp only
    by_cases hd : dimensions = 3
    · rw [if_pos hd]
      obtain ⟨r, hr, htriangle⟩ := triangleLocated_total h hrows
      rw [hr, ok_bind]
      cases r with
      | none => exact edgeOrVertexLocated_total h hrows
      | some row => exact ⟨row, rfl, .inl (htriangle row rfl)⟩
    · rw [if_neg hd]
      exact edgeOrVertexLocated_total h hrows

end

/-- The rows on a mesh refer to its vertices. -/
theorem rows_within {α : Type} [Scalar α] {m : Mesh α} (h : m.Consistent) (p : Point α) :
    Rows m p fun row => ∀ e ∈ row, e.vertex < m.vertices.length where
  vertex v hv e he := by
    rw [List.mem_singleton.1 he]
    exact hv
  edge e he := by
    obtain ⟨a, b, heq⟩ := edgeRow_eq (h.ends e he) p
    refine ⟨_, heq, fun row hrow _ => ?_⟩
    obtain ⟨t, -, rfl⟩ := Option.map_eq_some_iff.1 hrow
    simp [h.ends e he]
  triangle t ht := by
    obtain ⟨a, b, c, heq⟩ := triangleRow_eq (h.corners_lt ht) p
    refine ⟨_, heq, fun row hrow _ => ?_⟩
    obtain ⟨⟨u, v, w⟩, -, rfl⟩ := Option.map_eq_some_iff.1 hrow
    simp [h.corners_lt ht]

/-- The rows on a mesh in exact arithmetic are convex. -/
theorem rows_convex {m : Mesh ℝ} (h : m.Consistent) (p : Point ℝ) :
    Rows m p (Row.Convex m.vertices.length) where
  vertex _ hv := vertexRow_convex hv
  edge e he := by
    obtain ⟨r, hr, haffine⟩ := edgeRow_total (h.ends e he) p
    exact ⟨r, hr, fun row hrow => convex_of_isInside (haffine row hrow)⟩
  triangle t ht := by
    obtain ⟨r, hr, haffine⟩ := triangleRow_total (h.corners_lt ht) p
    exact ⟨r, hr, fun row hrow => convex_of_isInside (haffine row hrow)⟩

end Cosimulation.Mapping

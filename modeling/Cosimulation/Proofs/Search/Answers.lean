import Cosimulation.Proofs.Geometry.Distance
import Cosimulation.Proofs.Search.Snapshots
import Cosimulation.Proofs.Search.Ties

/-!
# Answers for the nearest shapes of a mesh

To ask an index for the nearest vertices, edges or triangles is to search the tree of these
(`exists_searched`). What the visit of a tree can change about the answer is gathered in `Answers`:
nothing, exactly if the cut does not divide equal squared distances.

In exact arithmetic distances compare as their squares do (`rootsCompare_real`), so there the answer
is the first shapes by distance and index in the same case (`settles_first_iff`).
-/

namespace Cosimulation.Search

variable {α : Type} [Scalar α]

/-! ## Shapes of a mesh -/

namespace Kind

/-- The shapes of a kind on a mesh, each with its squared distance from a point. -/
def shapes (m : Mesh α) (p : Point α) : Kind → Except (Violation α) (List (Nat × α))
  | .vertices => .ok (measured (vertexTree m).entries fun v => v.distance2 p)
  | .edges => do
    return measured (← edgeTree m).entries fun (a, b) => Geometry.searchDistance2 p a b
  | .triangles => do
    return measured (← triangleTree m).entries fun (a, b, c) => Geometry.triangleDistance2 p a b c

/-- How many shapes of a kind there are on a mesh. -/
def count (m : Mesh α) : Kind → Nat
  | .vertices => m.vertices.length
  | .edges => m.edges.length
  | .triangles => m.triangles.length

/-- The query for the shapes of a kind that are nearest to a point. -/
def query (p : Point α) (k : Nat) : Kind → Query α
  | .vertices => .vertices p k
  | .edges => .edges p k
  | .triangles => .triangles p k

end Kind

section
variable {m : Mesh α} {i : MeshIndex α}

theorem map_fst_vertices (hm : m.Consistent) (d : Point α → α) :
    (measured (vertexTree m).entries d).map Prod.fst = List.range m.vertices.length := by
  rw [map_fst_measured, vertexTree, List.map_map]
  exact hm.vertexIds

theorem map_fst_edges (hm : m.Consistent) {t : Tree (Segment α)} (ht : edgeTree m = .ok t)
    (d : Segment α → α) :
    (measured t.entries d).map Prod.fst = List.range m.edges.length := by
  rw [map_fst_measured, map_fst_edgeTree ht, hm.edgeIds]

theorem map_fst_triangles (hm : m.Consistent) {t : Tree (Corners α)} (ht : triangleTree m = .ok t)
    (d : Corners α → α) :
    (measured t.entries d).map Prod.fst = List.range m.triangles.length := by
  rw [map_fst_measured, map_fst_triangleTree ht, hm.triangleIds]

/-- A query for the nearest shapes of a kind is a search in one tree. -/
theorem exists_searched (hm : m.Consistent) (hi : i.Fresh m) (kind : Kind) (p : Point α) :
    ∃ (σ : Type) (t : Tree σ) (d : σ → α), kind.shapes m p = .ok (measured t.entries d) ∧
      (measured t.entries d).map Prod.fst = List.range (kind.count m) ∧
      ∀ [SearchOrder α] (k : Nat), ∃ i', i'.Fresh m ∧
        i.answer m (kind.query p k) = .ok (.hits (t.nearest d k), i') := by
  cases kind with
  | vertices =>
    obtain ⟨i', hi', hfor⟩ := hi.forVertices
    refine ⟨_, vertexTree m, fun v => v.distance2 p, rfl, map_fst_vertices hm _,
      fun k => ⟨i', hi', ?_⟩⟩
    rw [Kind.query, MeshIndex.answer, hfor]
    rfl
  | edges =>
    obtain ⟨t, ht⟩ := edgeTree_total hm.whole
    obtain ⟨i', hi', hfor⟩ := hi.forEdges
    refine ⟨_, t, fun (a, b) => Geometry.searchDistance2 p a b, by rw [Kind.shapes, ht]; rfl,
      map_fst_edges hm ht _, fun k => ⟨i', hi', ?_⟩⟩
    rw [Kind.query, MeshIndex.answer, hfor, ht]
    rfl
  | triangles =>
    obtain ⟨t, ht⟩ := triangleTree_total hm.whole
    obtain ⟨i', hi', hfor⟩ := hi.forTriangles
    refine ⟨_, t, fun (a, b, c) => Geometry.triangleDistance2 p a b c,
      by rw [Kind.shapes, ht]; rfl, map_fst_triangles hm ht _, fun k => ⟨i', hi', ?_⟩⟩
    rw [Kind.query, MeshIndex.answer, hfor, ht]
    rfl

/-- An index gives the answer, whatever admissible visit is made. -/
def MeshIndex.Settles (i : MeshIndex α) (m : Mesh α) (q : Query α) (a : Answer α) : Prop :=
  ∀ [SearchOrder α] [LawfulSearchOrder α], ∃ i', i'.Fresh m ∧ i.answer m q = .ok (a, i')

/-- What is known of the answer to a query for the `k` nearest of some shapes. -/
structure Answers (i : MeshIndex α) (m : Mesh α) (q : Query α) (shapes : List (Nat × α)) (k : Nat) :
    Prop where
  /-- Whatever the visit, `k` shapes are found or all, none left out being nearer. -/
  finds : ∀ [SearchOrder α] [LawfulSearchOrder α], ∃ hits i', i'.Fresh m ∧
    i.answer m q = .ok (.hits hits, i') ∧ Finds shapes k hits
  /-- A cut that does not divide equal squared distances settles the answer. -/
  settles : Undivided Prod.snd shapes k → i.Settles m q (.hits (settledHits shapes k))
  /-- No other cut does. -/
  undivided : ∀ hits, i.Settles m q (.hits hits) → Undivided Prod.snd shapes k
  /-- The answer is the first shapes by distance and index if equal distances are not divided. -/
  first : RootsAscend shapes → Undivided (fun s => Scalar.sqrt s.2) shapes k →
    i.Settles m q (.hits ((Hit.ranked (shapes.map .of)).take k))
  /-- Where distances compare as their squares do, it is so in no other case. -/
  first_iff : RootsCompare shapes →
    (i.Settles m q (.hits ((Hit.ranked (shapes.map .of)).take k)) ↔ Undivided Prod.snd shapes k)

theorem exists_answers [Std.TransCmp (Scalar.rank : α → α → Ordering)] (hm : m.Consistent)
    (hi : i.Fresh m) (kind : Kind) (p : Point α) : ∃ shapes, kind.shapes m p = .ok shapes ∧
      shapes.map Prod.fst = List.range (kind.count m) ∧
      ∀ k, Answers i m (kind.query p k) shapes k := by
  obtain ⟨σ, t, d, hshapes, hrange, hsearch⟩ := exists_searched hm hi kind p
  have hids : ((measured t.entries d).map Prod.fst).Nodup := hrange ▸ List.nodup_range
  have hsettles {k : Nat} {hits : List (Hit α)} :
      i.Settles m (kind.query p k) (.hits hits) ↔
        ∀ [SearchOrder α] [LawfulSearchOrder α], t.nearest d k = hits := by
    refine ⟨fun h order lawful => ?_, fun h order lawful => ?_⟩
    · obtain ⟨i₁, -, h₁⟩ := hsearch k
      obtain ⟨i₂, -, h₂⟩ := h
      exact Answer.hits.inj (Prod.mk.inj (Except.ok.inj (h₁.symm.trans h₂))).1
    · obtain ⟨i', hi', h'⟩ := hsearch k
      exact ⟨i', hi', by rw [h', h]⟩
  refine ⟨_, hshapes, hrange, fun k => ⟨fun {order lawful} => ?finds, fun hu => ?settles,
    fun hits h => ?undivided, fun hroots hu => ?first, fun hroots => ?first_iff⟩⟩
  case finds =>
    obtain ⟨i', hi', h'⟩ := hsearch k
    exact ⟨_, i', hi', h', nearest_finds hids⟩
  case settles => exact hsettles.2 (nearest_eq_settledHits hids hu)
  case undivided => exact (nearest_settled_iff hids).1 ⟨hits, hsettles.1 h⟩
  case first => exact hsettles.2 (nearest_eq_take hids hroots hu)
  case first_iff =>
    rw [hsettles]
    exact nearest_eq_take_iff hids hroots

end

/-! ## Exact arithmetic -/

theorem rank_sqrt {a b : ℝ} (ha : 0 ≤ a) (hb : 0 ≤ b) :
    Scalar.rank (Scalar.sqrt a) (Scalar.sqrt b) = Scalar.rank a b := by
  rw [rank_real, rank_real]
  rcases lt_trichotomy a b with h | rfl | h
  · rw [compare_lt_iff_lt.2 h]
    exact compare_lt_iff_lt.2 (Real.sqrt_lt_sqrt ha h)
  · rw [compare_eq_iff_eq.2 rfl, compare_eq_iff_eq.2 rfl]
  · rw [compare_gt_iff_gt.2 h]
    exact compare_gt_iff_gt.2 (Real.sqrt_lt_sqrt hb h)

/-- In exact arithmetic, distances compare as their squares do. -/
theorem rootsCompare_real {m : Mesh ℝ} {kind : Kind} {p : Point ℝ} {shapes : List (Nat × ℝ)}
    (h : kind.shapes m p = .ok shapes) : RootsCompare shapes := by
  have hmeasured {σ : Type} (entries : List (Nat × σ)) {d : σ → ℝ} (hd : ∀ s, 0 ≤ d s) :
      ∀ s ∈ measured entries d, 0 ≤ s.2 := by
    intro s hs
    obtain ⟨x, -, rfl⟩ := List.mem_map.1 hs
    exact hd x.2
  have hnonneg : ∀ s ∈ shapes, 0 ≤ s.2 := by
    cases kind with
    | vertices =>
      obtain rfl := Except.ok.inj h
      exact hmeasured _ fun v => Point.norm2_nonneg _
    | edges =>
      obtain ⟨t, -, h⟩ := bind_ok h
      obtain rfl := Except.ok.inj h
      refine hmeasured _ fun (a, b) => ?_
      unfold Geometry.searchDistance2
      dsimp only
      split_ifs <;> exact Point.norm2_nonneg _
    | triangles =>
      obtain ⟨t, -, h⟩ := bind_ok h
      obtain rfl := Except.ok.inj h
      exact hmeasured _ fun (a, b, c) => Point.norm2_nonneg _
  exact fun s hs s' hs' => rank_sqrt (hnonneg s hs) (hnonneg s' hs')

/-- In exact arithmetic, the answer is settled to be the first shapes by distance and index exactly
if the cut does not divide equal distances. -/
theorem settles_first_iff {m : Mesh ℝ} {i : MeshIndex ℝ} (hm : m.Consistent) (hi : i.Fresh m)
    (kind : Kind) (p : Point ℝ) : ∃ shapes, kind.shapes m p = .ok shapes ∧ ∀ k,
      (i.Settles m (kind.query p k) (.hits ((Hit.ranked (shapes.map .of)).take k)) ↔
        Undivided Prod.snd shapes k) := by
  obtain ⟨shapes, hshapes, -, hanswers⟩ := exists_answers hm hi kind p
  exact ⟨shapes, hshapes, fun k => (hanswers k).first_iff (rootsCompare_real hshapes)⟩

end Cosimulation.Search

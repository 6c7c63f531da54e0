import Cosimulation.Proofs.Mesh.Validity
import Cosimulation.Proofs.Search.Ranking
import Cosimulation.Search.Index

/-!
# Searches among the shapes of a mesh

Whatever order a search tree is visited in, what a search finds are shapes of the tree with their
distances (`nearest_measured`), as many as are asked for or as there are (`length_nearest`).

A mesh index answers for the mesh as it was when its trees were built. `MeshIndex.Fresh` says that
this is the mesh as it is; then a tree that is asked for is that of the mesh, whether it was there
already or has to be built (`Fresh.forVertices`, `Fresh.forEdges`, `Fresh.forTriangles`). Dropping
the entry of a mesh makes a cache fresh for it (`Cache.fresh_clear`).
-/

namespace Cosimulation.Search

section
variable {α σ : Type} [Scalar α] [SearchOrder α] [LawfulSearchOrder α] {t : Tree σ} {d : σ → α}
  {k : Nat}

/-- What a visit comes to are the shapes of the tree with their distances. -/
theorem visit_perm_map (t : Tree σ) (d : σ → α) :
    (t.visit d).Perm (t.entries.map fun (i, s) => ⟨i, Scalar.sqrt (d s)⟩) := by
  have hperm := (LawfulSearchOrder.visit_perm t.entries d).map fun (i, x) =>
    (⟨i, Scalar.sqrt x⟩ : Hit α)
  rwa [measured, List.map_map] at hperm

/-- What a search finds is a shape of the tree, with its distance. -/
theorem nearest_measured {h : Hit α} (hh : h ∈ t.nearest d k) :
    ∃ s, (h.index, s) ∈ t.entries ∧ h.distance = Scalar.sqrt (d s) := by
  have hvisit : h ∈ t.visit d := List.mem_of_mem_take (List.mem_mergeSort.1 hh)
  obtain ⟨⟨i, s⟩, hs, rfl⟩ := List.mem_map.1 ((visit_perm_map t d).mem_iff.1 hvisit)
  exact ⟨s, hs, rfl⟩

theorem mem_nearest {h : Hit α} (hh : h ∈ t.nearest d k) : ∃ s, (h.index, s) ∈ t.entries :=
  (nearest_measured hh).imp fun _ hs => hs.1

theorem length_nearest : (t.nearest d k).length = min k t.entries.length := by
  have hlen := (visit_perm_map t d).length_eq
  rw [List.length_map] at hlen
  rw [Tree.nearest, firstRanked, Hit.ranked, List.length_mergeSort, List.length_take, hlen]

/-- A search among some shapes finds one. -/
theorem nearest_ne_nil (hne : t.entries ≠ []) (hk : 0 < k) : t.nearest d k ≠ [] := by
  have hpos := List.length_pos_iff.2 hne
  rw [← List.length_pos_iff, length_nearest]
  omega

end

theorem rank_ne_gt_iff {a b : ℝ} : Scalar.rank a b ≠ .gt ↔ a ≤ b := by
  rw [rank_real, compare_le_iff_le]

/-- Going by index among equally near shapes is a lawful visit. -/
theorem byIndex_lawful : @LawfulSearchOrder ℝ _ .byIndex := SearchOrder.lawful_byIndex

/-! ## Trees of a mesh -/

section
variable {β γ ε : Type} {f : β → Except ε γ}

/-- A computation on all entries of a list succeeds if it does on each. -/
theorem mapM_succeeds : ∀ {xs : List β}, (∀ x ∈ xs, ∃ y, f x = .ok y) →
    ∃ ys, xs.mapM f = .ok ys := by
  intro xs
  induction xs with
  | nil => exact fun _ => ⟨[], rfl⟩
  | cons x xs ih =>
    intro h
    obtain ⟨y, hy⟩ := h x List.mem_cons_self
    obtain ⟨ys, hys⟩ := ih fun x hx => h x (List.mem_cons_of_mem _ hx)
    exact ⟨y :: ys, by rw [List.mapM_cons, hy, ok_bind, hys]; rfl⟩

theorem mapM_eq_ok {g : β → γ} {xs : List β} (h : ∀ x ∈ xs, f x = .ok (g x)) :
    xs.mapM f = .ok (xs.map g) := by
  induction xs with
  | nil => rfl
  | cons x xs ih =>
    rw [List.mapM_cons, h x List.mem_cons_self, ok_bind,
      ih fun y hy => h y (List.mem_cons_of_mem x hy)]
    rfl

/-- What a computation on all entries of a list gives, it gives entry by entry. -/
theorem forall₂_of_mapM : ∀ {xs : List β} {ys : List γ}, xs.mapM f = .ok ys →
    List.Forall₂ (fun x y => f x = .ok y) xs ys := by
  intro xs
  induction xs with
  | nil =>
    intro ys h
    obtain rfl := Except.ok.inj h
    exact .nil
  | cons x xs ih =>
    intro ys h
    rw [List.mapM_cons] at h
    obtain ⟨y, hy, h⟩ := bind_ok h
    obtain ⟨ys', hys', h⟩ := bind_ok h
    obtain rfl := Except.ok.inj h
    exact .cons hy (ih hys')

theorem length_of_mapM {xs : List β} {ys : List γ} (h : xs.mapM f = .ok ys) :
    ys.length = xs.length := (forall₂_of_mapM h).length_eq.symm

theorem mem_of_mapM {xs : List β} {ys : List γ} (h : xs.mapM f = .ok ys) :
    ∀ y ∈ ys, ∃ x ∈ xs, f x = .ok y := by
  intro y hy
  obtain ⟨hlen, hget⟩ := List.forall₂_iff_get.1 (forall₂_of_mapM h)
  obtain ⟨i, hi, rfl⟩ := List.mem_iff_getElem.1 hy
  exact ⟨xs[i], List.getElem_mem (hlen ▸ hi), hget i (hlen ▸ hi) hi⟩

/-- A feature that every result has of its entry, the results have of the entries in order. -/
theorem map_of_mapM {δ : Type} {feature : β → δ} {kept : γ → δ} {xs : List β} {ys : List γ}
    (hkept : ∀ x y, f x = .ok y → feature x = kept y) (h : xs.mapM f = .ok ys) :
    ys.map kept = xs.map feature := by
  have hall : List.Forall₂ (· = ·) (xs.map feature) (ys.map kept) := by
    rw [List.forall₂_map_left_iff, List.forall₂_map_right_iff]
    exact (forall₂_of_mapM h).imp hkept
  rw [List.forall₂_eq_eq_eq] at hall
  exact hall.symm

end

section
variable {α : Type} {m : Mesh α}

theorem id_of_range {β : Type} {id : β → Nat} {bs : List β}
    (hids : bs.map id = List.range bs.length) {i : Nat} {b : β} (hb : bs[i]? = some b) :
    id b = i := by
  have hlt : i < bs.length := (List.getElem?_eq_some_iff.1 hb).1
  have hid : (bs.map id)[i]? = some (id b) := by rw [List.getElem?_map, hb]; rfl
  rw [hids, List.getElem?_range hlt] at hid
  exact (Option.some.inj hid).symm

/-- An entity that carries its position as ID is found there. -/
theorem getElem?_id {β : Type} {id : β → Nat} {bs : List β}
    (hids : bs.map id = List.range bs.length) {b : β} (hb : b ∈ bs) : bs[id b]? = some b := by
  obtain ⟨i, hi⟩ := List.mem_iff_getElem?.1 hb
  rwa [id_of_range hids hi]

theorem vertexPoint_ok {v : Nat} (h : v < m.vertices.length) :
    m.vertexPoint v = .ok m.vertices[v].position := by
  rw [Mesh.vertexPoint, List.getElem?_eq_getElem h]

theorem edgePoints_total {e : Edge}
    (h : e.ends.1 < m.vertices.length ∧ e.ends.2 < m.vertices.length) :
    ∃ points, m.edgePoints e = .ok points := by
  rw [Mesh.edgePoints, vertexPoint_ok h.1, vertexPoint_ok h.2]
  exact ⟨_, rfl⟩

theorem trianglePoints_total {t : Triangle} (h : t.corners.1 < m.vertices.length ∧
    t.corners.2.1 < m.vertices.length ∧ t.corners.2.2 < m.vertices.length) :
    ∃ points, m.trianglePoints t = .ok points := by
  rw [Mesh.trianglePoints, vertexPoint_ok h.1, vertexPoint_ok h.2.1, vertexPoint_ok h.2.2]
  exact ⟨_, rfl⟩

theorem mem_edgeTree {t : Tree (Segment α)} (ht : edgeTree m = .ok t) {i : Nat} {s : Segment α}
    (hi : (i, s) ∈ t.entries) : ∃ e ∈ m.edges, e.id = i ∧ m.edgePoints e = .ok s := by
  obtain ⟨entries, hentries, ht⟩ := bind_ok ht
  obtain rfl := Except.ok.inj ht
  obtain ⟨e, he, h⟩ := mem_of_mapM hentries _ hi
  obtain ⟨points, hpoints, h⟩ := bind_ok h
  obtain ⟨rfl, rfl⟩ := Prod.mk.inj (Except.ok.inj h)
  exact ⟨e, he, rfl, hpoints⟩

theorem mem_triangleTree {t : Tree (Corners α)} (ht : triangleTree m = .ok t) {i : Nat}
    {s : Corners α} (hi : (i, s) ∈ t.entries) :
    ∃ e ∈ m.triangles, e.id = i ∧ m.trianglePoints e = .ok s := by
  obtain ⟨entries, hentries, ht⟩ := bind_ok ht
  obtain rfl := Except.ok.inj ht
  obtain ⟨e, he, h⟩ := mem_of_mapM hentries _ hi
  obtain ⟨points, hpoints, h⟩ := bind_ok h
  obtain ⟨rfl, rfl⟩ := Prod.mk.inj (Except.ok.inj h)
  exact ⟨e, he, rfl, hpoints⟩

theorem map_fst_edgeTree {t : Tree (Segment α)} (ht : edgeTree m = .ok t) :
    t.entries.map Prod.fst = m.edges.map Edge.id := by
  obtain ⟨entries, hentries, ht⟩ := bind_ok ht
  obtain rfl := Except.ok.inj ht
  refine map_of_mapM (fun e entry h => ?_) hentries
  obtain ⟨points, -, h⟩ := bind_ok h
  exact (Prod.mk.inj (Except.ok.inj h)).1

theorem map_fst_triangleTree {t : Tree (Corners α)} (ht : triangleTree m = .ok t) :
    t.entries.map Prod.fst = m.triangles.map Triangle.id := by
  obtain ⟨entries, hentries, ht⟩ := bind_ok ht
  obtain rfl := Except.ok.inj ht
  refine map_of_mapM (fun e entry h => ?_) hentries
  obtain ⟨points, -, h⟩ := bind_ok h
  exact (Prod.mk.inj (Except.ok.inj h)).1

theorem edgeTree_total (h : m.Whole) : ∃ t, edgeTree m = .ok t := by
  have hentry : ∀ e ∈ m.edges, ∃ entry,
      (do return (e.id, ← m.edgePoints e) : Except (Violation α) _) = .ok entry := by
    intro e he
    obtain ⟨points, hpoints⟩ := edgePoints_total (h.ends e he)
    exact ⟨_, by rw [hpoints]; rfl⟩
  obtain ⟨entries, hentries⟩ := mapM_succeeds hentry
  exact ⟨⟨entries⟩, by rw [edgeTree, hentries]; rfl⟩

theorem triangleTree_total (h : m.Whole) : ∃ t, triangleTree m = .ok t := by
  have hentry : ∀ t ∈ m.triangles, ∃ entry,
      (do return (t.id, ← m.trianglePoints t) : Except (Violation α) _) = .ok entry := by
    intro t ht
    obtain ⟨points, hpoints⟩ := trianglePoints_total (h.corners t ht)
    exact ⟨_, by rw [hpoints]; rfl⟩
  obtain ⟨entries, hentries⟩ := mapM_succeeds hentry
  exact ⟨⟨entries⟩, by rw [triangleTree, hentries]; rfl⟩

/-! ## Indices of the mesh as it is -/

/-- The trees of an index, as far as it has any, are those of a mesh. -/
structure MeshIndex.Fresh (i : MeshIndex α) (m : Mesh α) : Prop where
  vertices : ∀ t, i.vertices = some t → vertexTree m = t
  edges : ∀ t, i.edges = some t → edgeTree m = .ok t
  triangles : ∀ t, i.triangles = some t → triangleTree m = .ok t

/-- The index that a cache has for a mesh, if any, is fresh. -/
def Cache.Fresh (c : Cache α) (m : Mesh α) : Prop :=
  ∀ h, c.current.lookup m.id = some h → (c.index h).Fresh m

theorem MeshIndex.fresh_empty (m : Mesh α) : ({} : MeshIndex α).Fresh m := ⟨nofun, nofun, nofun⟩

theorem Cache.fresh_clear (c : Cache α) (m : Mesh α) : (c.clear m.id).Fresh m := by
  intro h hh
  obtain ⟨before, behind, heq, -⟩ := List.lookup_eq_some_iff.1 hh
  have hmem : (m.id, h) ∈ c.current.filter fun e => e.1 != m.id := by
    show _ ∈ (c.clear m.id).current
    rw [heq]
    simp
  simp at hmem

namespace MeshIndex.Fresh

variable {i : MeshIndex α}

theorem forVertices (h : i.Fresh m) :
    ∃ i', i'.Fresh m ∧ i.forVertices m = (vertexTree m, i') := by
  unfold MeshIndex.forVertices
  split
  next t ht => exact ⟨i, h, by rw [h.vertices t ht]⟩
  next =>
    exact ⟨{ i with vertices := some (vertexTree m) },
      ⟨fun t ht => Option.some.inj ht, h.edges, h.triangles⟩, rfl⟩

theorem forEdges (h : i.Fresh m) :
    ∃ i', i'.Fresh m ∧ i.forEdges m = (edgeTree m).map fun t => (t, i') := by
  unfold MeshIndex.forEdges
  split
  next t ht => exact ⟨i, h, by rw [h.edges t ht]; rfl⟩
  next =>
    cases ht : edgeTree m with
    | error v => exact ⟨i, h, rfl⟩
    | ok t =>
      exact ⟨{ i with edges := some t },
        ⟨h.vertices, fun t' ht' => Option.some.inj ht' ▸ ht, h.triangles⟩, rfl⟩

theorem forTriangles (h : i.Fresh m) :
    ∃ i', i'.Fresh m ∧ i.forTriangles m = (triangleTree m).map fun t => (t, i') := by
  unfold MeshIndex.forTriangles
  split
  next t ht => exact ⟨i, h, by rw [h.triangles t ht]; rfl⟩
  next =>
    cases ht : triangleTree m with
    | error v => exact ⟨i, h, rfl⟩
    | ok t =>
      exact ⟨{ i with triangles := some t },
        ⟨h.vertices, h.edges, fun t' ht' => Option.some.inj ht' ▸ ht⟩, rfl⟩

end MeshIndex.Fresh

/-- The index that a fresh cache hands out is fresh. -/
theorem Cache.Fresh.handle {c : Cache α} (h : c.Fresh m) :
    ((c.handle m.id).2.index (c.handle m.id).1).Fresh m := by
  unfold Cache.handle
  split
  next k hk => exact h k hk
  next =>
    have hnew : (c.indices ++ [({ } : MeshIndex α)])[c.indices.length]? = some { } :=
      List.getElem?_concat_length
    show ((c.indices ++ [({ } : MeshIndex α)])[c.indices.length]?.getD { }).Fresh m
    rw [hnew]
    exact MeshIndex.fresh_empty m

end

end Cosimulation.Search

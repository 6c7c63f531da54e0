import Cosimulation.Mapping.Locate
import Cosimulation.Proofs.Search.Fresh

/-!
# What an index remembers

An index has at most one tree of each kind, and each tree shows the mesh as it was when the tree was
built. `Snapshots` keeps those meshes in place of the trees, and `MeshIndex.of` is the index again.

Seen in this way, a query answers from the snapshot of its kind; if there is none yet, it takes one
of the mesh as it is (`answer_of`). To locate a point is to ask several kinds, one after the other
as the answers require (`kindsAsked`), and what it leaves is what these queries leave (`locate_of`).

The entries of a cache do not share indices (`Cache.Sound`), so what happens to the entry of a mesh
happens to no other.
-/

namespace Cosimulation.Search

variable {α : Type}

/-! ## Entries of a cache -/

namespace Cache

/-- The index that a mesh has in a cache; one without trees if it has no entry. -/
def entry (c : Cache α) (id : MeshId) : MeshIndex α :=
  match c.current.lookup id with
  | some h => c.index h
  | none => {}

/-- Each entry has an index of its own. -/
structure Sound (c : Cache α) : Prop where
  handed : ∀ id h, c.current.lookup id = some h → h < c.indices.length
  apart : ∀ id id' h, c.current.lookup id = some h → c.current.lookup id' = some h → id = id'

variable {c : Cache α}

/-- A cache without entries. -/
theorem sound_of_nil (h : c.current = []) : c.Sound := by
  refine ⟨fun id k hk => ?_, fun id id' k hk => ?_⟩ <;>
    rw [h, List.lookup_nil] at hk <;> cases hk

/-- The index that is handed out is that of the mesh. -/
theorem index_handle (c : Cache α) (id : MeshId) :
    (c.handle id).2.index (c.handle id).1 = c.entry id := by
  unfold handle entry
  cases c.current.lookup id with
  | some h => rfl
  | none =>
    show ((c.indices ++ [({} : MeshIndex α)])[c.indices.length]?).getD {} = {}
    rw [List.getElem?_concat_length]
    rfl

theorem lookup_handle (c : Cache α) (id id' : MeshId) : (c.handle id).2.current.lookup id' =
    if id' = id then some (c.handle id).1 else c.current.lookup id' := by
  unfold handle
  cases hid : c.current.lookup id with
  | some h =>
    show c.current.lookup id' = if id' = id then some h else _
    by_cases heq : id' = id
    · rw [if_pos heq, heq, hid]
    · rw [if_neg heq]
  | none =>
    show (c.current ++ [(id, c.indices.length)]).lookup id' = _
    rw [List.lookup_append]
    by_cases heq : id' = id
    · rw [if_pos heq, heq, hid]
      simp
    · rw [if_neg heq, List.lookup_cons, beq_false_of_ne heq]
      exact Option.or_none

namespace Sound

/-- The index that is handed out belongs to no other mesh. -/
theorem handle (h : c.Sound) (id : MeshId) : (c.handle id).2.Sound := by
  have hlen : (c.handle id).1 < (c.handle id).2.indices.length ∧
      c.indices.length ≤ (c.handle id).2.indices.length ∧
      ∀ id', c.current.lookup id' = some (c.handle id).1 → id' = id := by
    unfold Cache.handle
    cases hid : c.current.lookup id with
    | some k => exact ⟨h.handed id k hid, Nat.le_refl _, fun id' h' => h.apart id' id k h' hid⟩
    | none =>
      refine ⟨by simp, by simp, fun id' h' => absurd (h.handed id' _ h') ?_⟩
      exact Nat.lt_irrefl _
  refine ⟨fun id' k hk => ?_, fun id₁ id₂ k h₁ h₂ => ?_⟩
  · rw [lookup_handle] at hk
    split at hk
    next => rw [← Option.some.inj hk]; exact hlen.1
    next => exact Nat.lt_of_lt_of_le (h.handed id' k hk) hlen.2.1
  · rw [lookup_handle] at h₁ h₂
    split at h₁ <;> split at h₂
    next e₁ e₂ => rw [e₁, e₂]
    next e₁ e₂ => exact absurd (hlen.2.2 id₂ (h₂.trans h₁.symm)) e₂
    next e₁ e₂ => exact absurd (hlen.2.2 id₁ (h₁.trans h₂.symm)) e₁
    next => exact h.apart id₁ id₂ k h₁ h₂

theorem update (h : c.Sound) (k : Handle) (i : MeshIndex α) : (c.update k i).Sound := by
  refine ⟨fun id k' hk => ?_, h.apart⟩
  rw [Cache.update, List.length_set]
  exact h.handed id k' hk

end Sound

/-- To ask for an index gives no mesh another one. -/
theorem entry_handle (c : Cache α) (h : c.Sound) (id id' : MeshId) :
    (c.handle id).2.entry id' = c.entry id' := by
  by_cases heq : id' = id
  · rw [heq, ← index_handle c id, entry, lookup_handle, if_pos rfl]
  · rw [entry, lookup_handle, if_neg heq, entry]
    cases hid' : c.current.lookup id' with
    | none => rfl
    | some k =>
      have hk := h.handed id' k hid'
      show (c.handle id).2.index k = c.index k
      unfold handle index
      cases c.current.lookup id with
      | some _ => rfl
      | none => exact congrArg (·.getD {}) (List.getElem?_append_left hk)

/-- The trees that a query built are kept for its mesh alone. -/
theorem entry_update (h : c.Sound) (id id' : MeshId) (i : MeshIndex α) :
    ((c.handle id).2.update (c.handle id).1 i).entry id' =
      if id' = id then i else c.entry id' := by
  have hs := h.handle id
  have hid : (c.handle id).2.current.lookup id = some (c.handle id).1 := by
    rw [lookup_handle, if_pos rfl]
  rw [← entry_handle c h id id']
  generalize (c.handle id).2 = c' at hs hid
  generalize (c.handle id).1 = k at hid
  unfold entry update index
  dsimp only
  by_cases heq : id' = id
  · rw [if_pos heq, heq, hid]
    dsimp only
    rw [List.getElem?_set_self (hs.handed id k hid)]
    rfl
  · rw [if_neg heq]
    cases hid' : c'.current.lookup id' with
    | none => rfl
    | some k' =>
      have hne : k ≠ k' := fun hk => heq (hs.apart id' id k' hid' (hk ▸ hid))
      dsimp only
      rw [List.getElem?_set_ne hne]

theorem lookup_clear (c : Cache α) (id id' : MeshId) : (c.clear id).current.lookup id' =
    if id' = id then none else c.current.lookup id' := by
  unfold clear
  dsimp only
  induction c.current with
  | nil => rw [List.filter_nil, List.lookup_nil, ite_self]
  | cons e es ih =>
    obtain ⟨key, k⟩ := e
    rw [List.filter_cons]
    by_cases hkey : key = id
    · rw [if_neg (by simp [hkey]), ih, List.lookup_cons, hkey]
      by_cases heq : id' = id
      · rw [if_pos heq, if_pos heq]
      · rw [if_neg heq, if_neg heq, beq_false_of_ne heq]
    · rw [if_pos (by simp [hkey]), List.lookup_cons, List.lookup_cons, ih]
      by_cases heq : id' = id
      · rw [if_pos heq, if_pos heq, heq, beq_false_of_ne (Ne.symm hkey)]
      · rw [if_neg heq, if_neg heq]

theorem Sound.clear (h : c.Sound) (id : MeshId) : (c.clear id).Sound := by
  refine ⟨fun id' k hk => ?_, fun id₁ id₂ k h₁ h₂ => ?_⟩
  · rw [lookup_clear] at hk
    split at hk
    next => cases hk
    next => exact h.handed id' k hk
  · rw [lookup_clear] at h₁ h₂
    split at h₁
    next => cases h₁
    split at h₂
    next => cases h₂
    exact h.apart id₁ id₂ k h₁ h₂

theorem entry_clear (c : Cache α) (id id' : MeshId) :
    (c.clear id).entry id' = if id' = id then {} else c.entry id' := by
  rw [entry, lookup_clear]
  by_cases heq : id' = id
  · rw [if_pos heq, if_pos heq]
  · rw [if_neg heq, if_neg heq]
    rfl

end Cache

/-! ## Queries -/

/-- The kinds of trees. -/
inductive Kind where
  | vertices
  | edges
  | triangles
  deriving DecidableEq

/-- What is asked of an index: the shapes of a kind nearest to a point, no more than so many, or the
vertices in a box. -/
inductive Query (α : Type) where
  | vertices (p : Point α) (count : Nat)
  | edges (p : Point α) (count : Nat)
  | triangles (p : Point α) (count : Nat)
  | box (b : Box α)

/-- What an index answers. -/
inductive Answer (α : Type) where
  | hits (hs : List (Hit α))
  | within (vertices : List Nat)

namespace Query

/-- The kind of tree that answers. -/
def kind : Query α → Kind
  | .vertices _ _ => .vertices
  | .edges _ _ => .edges
  | .triangles _ _ => .triangles
  | .box _ => .vertices

variable [Scalar α] [SearchOrder α]

/-- The answer among the shapes of a mesh. -/
def on (m : Mesh α) : Query α → Except (Violation α) (Answer α)
  | .vertices p count => .ok (.hits (nearestPoints (vertexTree m) p count))
  | .edges p count => do return .hits (nearestSegments (← edgeTree m) p count)
  | .triangles p count => do return .hits (nearestTriangles (← triangleTree m) p count)
  | .box b => .ok (.within (pointsInBox (vertexTree m) b))

end Query

section
variable [Scalar α] [SearchOrder α]

/-- The answer of an index, which builds from a mesh the tree that it lacks, and the index with the
tree. -/
def MeshIndex.answer (i : MeshIndex α) (m : Mesh α) :
    Query α → Except (Violation α) (Answer α × MeshIndex α)
  | .vertices p count =>
    let (tree, i) := i.forVertices m
    .ok (.hits (nearestPoints tree p count), i)
  | .edges p count => do
    let (tree, i) ← i.forEdges m
    return (.hits (nearestSegments tree p count), i)
  | .triangles p count => do
    let (tree, i) ← i.forTriangles m
    return (.hits (nearestTriangles tree p count), i)
  | .box b =>
    let (tree, i) := i.forVertices m
    .ok (.within (pointsInBox tree b), i)

end

/-! ## Snapshots -/

/-- For each kind, the mesh as it was when it was first asked for. -/
abbrev Snapshots (α : Type) := Kind → Option (Mesh α)

/-- The index with the trees of some snapshots. -/
def MeshIndex.of (f : Snapshots α) : MeshIndex α where
  vertices := (f .vertices).map vertexTree
  edges := (f .edges).bind fun m => (edgeTree m).toOption
  triangles := (f .triangles).bind fun m => (triangleTree m).toOption

namespace Snapshots

/-- The mesh that a query of a kind sees: the snapshot or, if there is none yet, the mesh as it
is. -/
def seen (f : Snapshots α) (m : Mesh α) (k : Kind) : Mesh α := (f k).getD m

/-- A query of a kind takes a snapshot if there is none. -/
def ask (f : Snapshots α) (m : Mesh α) (k : Kind) : Snapshots α :=
  fun k' => if k' = k then some (f.seen m k) else f k'

/-- Several queries, one after the other. -/
def askAll (f : Snapshots α) (m : Mesh α) (ks : List Kind) : Snapshots α :=
  ks.foldl (fun f k => f.ask m k) f

theorem askAll_append (f : Snapshots α) (m : Mesh α) (ks ks' : List Kind) :
    f.askAll m (ks ++ ks') = (f.askAll m ks).askAll m ks' := List.foldl_append

/-- Something that is true of every snapshot. -/
def All (P : Mesh α → Prop) (f : Snapshots α) : Prop := ∀ k m, f k = some m → P m

namespace All

variable {P : Mesh α → Prop} {f : Snapshots α} {m : Mesh α}

theorem nothing : All P fun _ => none := fun _ m h => absurd h.symm (Option.some_ne_none m)

theorem seen (hf : f.All P) (hm : P m) (k : Kind) : P (f.seen m k) := by
  unfold Snapshots.seen
  cases hk : f k with
  | none => exact hm
  | some m' => exact hf k m' hk

theorem ask (hf : f.All P) (hm : P m) (k : Kind) : (f.ask m k).All P := by
  intro k' m' hm'
  unfold Snapshots.ask at hm'
  split at hm'
  next =>
    obtain rfl := Option.some.inj hm'
    exact hf.seen hm k
  next => exact hf k' m' hm'

theorem askAll (hm : P m) : ∀ (ks : List Kind) {f : Snapshots α}, f.All P → (f.askAll m ks).All P
  | [], _, hf => hf
  | k :: ks, _, hf => askAll hm ks (hf.ask hm k)

end All

end Snapshots

/-! ## An index that was built from snapshots -/

section
variable {f : Snapshots α} {m : Mesh α}

theorem forVertices_of : (MeshIndex.of f).forVertices m =
    (vertexTree (f.seen m .vertices), .of (f.ask m .vertices)) := by
  unfold MeshIndex.forVertices MeshIndex.of Snapshots.ask Snapshots.seen
  cases f .vertices <;> rfl

theorem forEdges_of (hf : f.All Mesh.Whole) (hm : m.Whole) :
    ∃ t, edgeTree (f.seen m .edges) = .ok t ∧
      (MeshIndex.of f).forEdges m = .ok (t, .of (f.ask m .edges)) := by
  obtain ⟨t, ht⟩ := edgeTree_total (hf.seen hm .edges)
  refine ⟨t, ht, ?_⟩
  unfold MeshIndex.forEdges MeshIndex.of Snapshots.ask
  cases hk : f .edges with
  | none =>
    have ht' : edgeTree m = .ok t := by rwa [Snapshots.seen, hk] at ht
    simp [Snapshots.seen, hk, ht', Except.toOption, ok_bind]
  | some m' =>
    have ht' : edgeTree m' = .ok t := by rwa [Snapshots.seen, hk] at ht
    simp [Snapshots.seen, hk, ht', Except.toOption]

theorem forTriangles_of (hf : f.All Mesh.Whole) (hm : m.Whole) :
    ∃ t, triangleTree (f.seen m .triangles) = .ok t ∧
      (MeshIndex.of f).forTriangles m = .ok (t, .of (f.ask m .triangles)) := by
  obtain ⟨t, ht⟩ := triangleTree_total (hf.seen hm .triangles)
  refine ⟨t, ht, ?_⟩
  unfold MeshIndex.forTriangles MeshIndex.of Snapshots.ask
  cases hk : f .triangles with
  | none =>
    have ht' : triangleTree m = .ok t := by rwa [Snapshots.seen, hk] at ht
    simp [Snapshots.seen, hk, ht', Except.toOption, ok_bind]
  | some m' =>
    have ht' : triangleTree m' = .ok t := by rwa [Snapshots.seen, hk] at ht
    simp [Snapshots.seen, hk, ht', Except.toOption]

/-- A query answers from the snapshot of its kind, and takes it if there is none. -/
theorem answer_of [Scalar α] [SearchOrder α] (hf : f.All Mesh.Whole) (hm : m.Whole) (q : Query α) :
    ∃ a, q.on (f.seen m q.kind) = .ok a ∧
      (MeshIndex.of f).answer m q = .ok (a, .of (f.ask m q.kind)) := by
  cases q with
  | vertices p count =>
    refine ⟨_, rfl, ?_⟩
    rw [MeshIndex.answer, forVertices_of]
    rfl
  | edges p count =>
    obtain ⟨t, ht, hfor⟩ := forEdges_of hf hm
    refine ⟨.hits (nearestSegments t p count), ?_, ?_⟩
    · rw [Query.on, Query.kind, ht]
      rfl
    · rw [MeshIndex.answer, hfor]
      rfl
  | triangles p count =>
    obtain ⟨t, ht, hfor⟩ := forTriangles_of hf hm
    refine ⟨.hits (nearestTriangles t p count), ?_, ?_⟩
    · rw [Query.on, Query.kind, ht]
      rfl
    · rw [MeshIndex.answer, hfor]
      rfl
  | box b =>
    refine ⟨_, rfl, ?_⟩
    rw [MeshIndex.answer, forVertices_of]
    rfl

end

end Cosimulation.Search

namespace Cosimulation.Mapping

open Search

variable {α : Type} [Scalar α] [SearchOrder α]

/-! ## The kinds that are asked for to locate points -/

/-- An edge is looked for, and the nearest vertex if there is none. -/
def edgeOrVertexKinds (m : Mesh α) (i : MeshIndex α) (p : Point α) : List Kind :=
  .edges :: match locateEdge m i p with
    | .ok (none, _) => [.vertices]
    | _ => []

/-- The kinds that are asked for to locate a point. -/
def kindsAsked (method : Method) (dimensions : Nat) (m : Mesh α) (i : MeshIndex α) (p : Point α) :
    List Kind :=
  match method with
  | .nearestNeighbor => [.vertices]
  | .nearestProjection =>
    if dimensions = 3 then
      .triangles :: match locateTriangle m i p with
        | .ok (none, i) => edgeOrVertexKinds m i p
        | _ => []
    else edgeOrVertexKinds m i p

/-- The kinds that are asked for to locate several points. -/
def allKindsAsked (method : Method) (dimensions : Nat) (m : Mesh α) :
    MeshIndex α → List (Point α) → List Kind
  | _, [] => []
  | i, p :: ps => kindsAsked method dimensions m i p ++
    match locate method dimensions m i p with
    | .ok (_, i) => allKindsAsked method dimensions m i ps
    | .error _ => []

section
variable {f : Snapshots α} {m : Mesh α} {p : Point α} {row : Row α} {i : MeshIndex α}

theorem locateVertex_of : (locateVertex m (.of f) p).2 = .of (f.ask m .vertices) := by
  unfold locateVertex
  rw [forVertices_of]
  dsimp only
  split <;> rfl

theorem locateEdge_of (hf : f.All Mesh.Whole) (hm : m.Whole) {r : Option (Row α)}
    (h : locateEdge m (.of f) p = .ok (r, i)) : i = .of (f.ask m .edges) := by
  obtain ⟨t, -, hfor⟩ := forEdges_of hf hm
  rw [locateEdge, hfor, ok_bind] at h
  obtain ⟨r', -, h⟩ := bind_ok h
  exact (Prod.mk.inj (Except.ok.inj h)).2.symm

theorem locateTriangle_of (hf : f.All Mesh.Whole) (hm : m.Whole) {r : Option (Row α)}
    (h : locateTriangle m (.of f) p = .ok (r, i)) : i = .of (f.ask m .triangles) := by
  obtain ⟨t, -, hfor⟩ := forTriangles_of hf hm
  rw [locateTriangle, hfor, ok_bind] at h
  obtain ⟨r', -, h⟩ := bind_ok h
  exact (Prod.mk.inj (Except.ok.inj h)).2.symm

theorem locateEdgeOrVertex_of (hf : f.All Mesh.Whole) (hm : m.Whole)
    (h : locateEdgeOrVertex m (.of f) p = .ok (row, i)) :
    i = .of (f.askAll m (edgeOrVertexKinds m (.of f) p)) := by
  obtain ⟨⟨r, i₁⟩, hedge, h⟩ := bind_ok h
  unfold edgeOrVertexKinds
  rw [hedge]
  obtain rfl := locateEdge_of hf hm hedge
  cases r with
  | some row' => exact (Prod.mk.inj (Except.ok.inj h)).2.symm
  | none =>
    have hi := congrArg Prod.snd (Except.ok.inj h)
    exact hi.symm.trans locateVertex_of

/-- To locate a point leaves the snapshots that its queries leave. -/
theorem locate_of (hf : f.All Mesh.Whole) (hm : m.Whole) {method : Method} {dimensions : Nat}
    (h : locate method dimensions m (.of f) p = .ok (row, i)) :
    i = .of (f.askAll m (kindsAsked method dimensions m (.of f) p)) := by
  cases method with
  | nearestNeighbor =>
    have hi := congrArg Prod.snd (Except.ok.inj h)
    exact hi.symm.trans locateVertex_of
  | nearestProjection =>
    unfold locate at h
    unfold kindsAsked
    dsimp only at h ⊢
    by_cases hd : dimensions = 3
    · rw [if_pos hd] at h ⊢
      obtain ⟨⟨r, i₁⟩, htriangle, h⟩ := bind_ok h
      rw [htriangle]
      obtain rfl := locateTriangle_of hf hm htriangle
      cases r with
      | some row' => exact (Prod.mk.inj (Except.ok.inj h)).2.symm
      | none => exact locateEdgeOrVertex_of (hf.ask hm .triangles) hm h
    · rw [if_neg hd] at h ⊢
      exact locateEdgeOrVertex_of hf hm h

theorem locateAll_of (hm : m.Whole) {method : Method} {dimensions : Nat} :
    ∀ (ps : List (Point α)) {f : Snapshots α} {rows : List (Row α)}, f.All Mesh.Whole →
      locateAll method dimensions m (.of f) ps = .ok (rows, i) →
        i = .of (f.askAll m (allKindsAsked method dimensions m (.of f) ps)) := by
  intro ps
  induction ps with
  | nil =>
    intro f rows _ h
    exact (Prod.mk.inj (Except.ok.inj h)).2.symm
  | cons p ps ih =>
    intro f rows hf h
    obtain ⟨⟨row, i₁⟩, hrow, h⟩ := bind_ok h
    obtain ⟨⟨rows', i₂⟩, hrows, h⟩ := bind_ok h
    obtain ⟨-, rfl⟩ := Prod.mk.inj (Except.ok.inj h)
    obtain rfl := locate_of hf hm hrow
    rw [allKindsAsked, hrow, Snapshots.askAll_append]
    exact ih (Snapshots.All.askAll hm _ hf) hrows

end

end Cosimulation.Mapping

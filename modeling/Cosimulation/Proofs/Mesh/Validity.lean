import Cosimulation.Proofs.Mesh.Operations

/-!
# Meshes that pass their check

Three edges are taken for a triangle by a short case analysis on their ends (`closedTriangle?`).
What it decides is that the edges join three different vertices pairwise, whichever way each of them
points (`isSome_closedTriangle?`).

A mesh whose bookkeeping is in order, and whose fields have as many values as its vertices need,
passes its check (`Mesh.Consistent.validate`).
-/

namespace Cosimulation

/-- An edge joins two vertices, in either direction. -/
def Joins (e : Nat × Nat) (u v : Nat) : Prop := e = (u, v) ∨ e = (v, u)

/-- Three edges are the sides of a triangle over three different vertices. -/
def FormTriangle (a b c : Nat × Nat) : Prop :=
  ∃ u v w, u ≠ v ∧ v ≠ w ∧ u ≠ w ∧ Joins a u v ∧ Joins b v w ∧ Joins c w u

/-- The sides of a triangle are found to close up. -/
theorem FormTriangle.closed {a b c : Nat × Nat} (h : FormTriangle a b c) :
    (closedTriangle? a b c).isSome := by
  obtain ⟨u, v, w, huv, hvw, huw, ha, hb, hc⟩ := h
  rcases ha with rfl | rfl <;> rcases hb with rfl | rfl <;> rcases hc with rfl | rfl <;>
    simp [closedTriangle?, isEnd, otherEnd, huv, huw, huw.symm, hvw.symm]

/-- An end of an edge and its other end are joined by the edge. -/
theorem joins_otherEnd {s : Nat} {e : Nat × Nat} (h : isEnd s e = true) :
    Joins e s (otherEnd s e) := by
  obtain ⟨x, y⟩ := e
  simp only [isEnd, Bool.or_eq_true, beq_iff_eq] at h
  unfold otherEnd
  by_cases hx : x = s
  · rw [if_pos hx, hx]
    exact .inl rfl
  · rw [if_neg hx]
    rcases h with rfl | rfl
    · exact absurd rfl hx
    · exact .inr rfl

/-- Edges that close up at a shared end of the first two are the sides of a triangle. -/
theorem formTriangle_of_shared {a b c : Nat × Nat} {s : Nat} (ha : isEnd s a = true)
    (hb : isEnd s b = true)
    (hc : c = (otherEnd s b, otherEnd s a) ∨ c = (otherEnd s a, otherEnd s b))
    (hfree : otherEnd s a ≠ otherEnd s b) (hsa : otherEnd s a ≠ s) (hsb : otherEnd s b ≠ s) :
    FormTriangle a b c :=
  ⟨otherEnd s a, s, otherEnd s b, hsa, hsb.symm, hfree, (joins_otherEnd ha).symm,
    joins_otherEnd hb, hc⟩

/-- Three edges are taken for a triangle exactly if they are the sides of one. -/
theorem isSome_closedTriangle? {a b c : Nat × Nat} :
    (closedTriangle? a b c).isSome ↔ FormTriangle a b c := by
  refine ⟨fun h => ?_, FormTriangle.closed⟩
  obtain ⟨s, hs, ha, hb⟩ : ∃ s, (if isEnd a.1 b then some a.1 else if isEnd a.2 b then some a.2
      else none) = some s ∧ isEnd s a = true ∧ isEnd s b = true := by
    by_cases h₁ : isEnd a.1 b = true
    · exact ⟨a.1, if_pos h₁, by simp [isEnd], h₁⟩
    · by_cases h₂ : isEnd a.2 b = true
      · exact ⟨a.2, by rw [if_neg h₁, if_pos h₂], by simp [isEnd], h₂⟩
      · simp [closedTriangle?, h₁, h₂] at h
  unfold closedTriangle? at h
  simp only [hs] at h
  split at h
  next => cases h
  next hno =>
    obtain ⟨hcloses, hno⟩ := not_or.1 hno
    obtain ⟨hfree, hno⟩ := not_or.1 hno
    obtain ⟨hsa, hsb⟩ := not_or.1 hno
    exact formTriangle_of_shared ha hb (Decidable.not_not.1 hcloses) hfree hsa hsb

/-- The corners of a triangle are the ends of its first edge and an end of its second. -/
theorem corners_of_closedTriangle? {a b c : Nat × Nat} {corners : Nat × Nat × Nat}
    (h : closedTriangle? a b c = some corners) :
    corners.1 = a.1 ∧ corners.2.1 = a.2 ∧ (corners.2.2 = b.1 ∨ corners.2.2 = b.2) := by
  unfold closedTriangle? at h
  dsimp only at h
  split at h
  next => cases h
  next shared _ =>
    split at h
    next => cases h
    next =>
      obtain rfl := Option.some.inj h
      refine ⟨rfl, rfl, ?_⟩
      dsimp only [otherEnd]
      split
      next => exact .inr rfl
      next => exact .inl rfl

namespace Mesh

variable {α : Type} {m : Mesh α}

theorem scalarCount_eq {count dimension size : Nat}
    (h : scalarCount (α := α) count dimension = .ok size) : size = count * dimension := by
  unfold scalarCount at h
  split at h
  next => exact (Except.ok.inj h).symm
  next => cases h

/-- The field has as many values as a number of vertices needs. -/
def Field.Complete (vertices : Nat) (f : Field α) : Prop :=
  scalarCount (α := α) vertices f.dimension = .ok f.values.length

theorem Field.Complete.length_eq {vertices : Nat} {f : Field α} (h : Field.Complete vertices f) :
    f.values.length = vertices * f.dimension := scalarCount_eq h

theorem validateFields_complete {vertices : Nat} : ∀ {fs : List (Field α)},
    (∀ f ∈ fs, Field.Complete vertices f) → validateFields vertices fs = .ok () := by
  intro fs
  induction fs with
  | nil => intro _; rfl
  | cons f fs ih =>
    intro h
    have hf : scalarCount (α := α) vertices f.dimension = .ok f.values.length :=
      h f List.mem_cons_self
    rw [validateFields, hf]
    show (if f.values.length = f.values.length then _ else _) = _
    rw [if_pos rfl]
    exact ih fun g hg => h g (List.mem_cons_of_mem _ hg)

variable [Zero α]

/-- Every vertex carries its position as ID. -/
theorem Consistent.misplacedVertex? (h : m.Consistent) : m.misplacedVertex? = none := by
  refine List.findSome?_eq_none_iff.2 fun ⟨v, i⟩ hv => ?_
  have hget : m.vertices[i]? = some v := List.mk_mem_zipIdx_iff_getElem?.1 hv
  have hlt : i < m.vertices.length := (List.getElem?_eq_some_iff.1 hget).1
  have hid : (m.vertices.map Vertex.id)[i]? = some v.id := by rw [List.getElem?_map, hget]; rfl
  rw [h.vertexIds, List.getElem?_range hlt] at hid
  exact if_pos (Option.some.inj hid).symm

/-- Every end of an edge is a vertex. -/
theorem Consistent.danglingEnd? (h : m.Consistent) : m.danglingEnd? = none := by
  refine List.findSome?_eq_none_iff.2 fun e he => ?_
  obtain ⟨ha, hb⟩ := h.ends e he
  simp [ha, hb]

/-- Every triangle has the corners that its edges form. -/
theorem Consistent.openTriangle? (h : m.Consistent) : m.openTriangle? = none :=
  List.find?_eq_none.2 fun t ht => by simp [h.corners t ht]

/-- The corners of every triangle are vertices. -/
theorem Consistent.corners_lt (h : m.Consistent) {t : Triangle} (ht : t ∈ m.triangles) :
    t.corners.1 < m.vertices.length ∧ t.corners.2.1 < m.vertices.length ∧
      t.corners.2.2 < m.vertices.length := by
  obtain ⟨x, y, z, hx, hy, -, hclosed⟩ := corners?_eq_some_iff.1 (h.corners t ht)
  obtain ⟨h₁, h₂, h₃⟩ := corners_of_closedTriangle? hclosed
  have ends {i : Nat} {e : Edge} (he : m.edges[i]? = some e) :=
    h.ends e (List.mem_of_getElem? he)
  rw [h₁, h₂]
  refine ⟨(ends hx).1, (ends hx).2, ?_⟩
  rcases h₃ with h₃ | h₃
  · rw [h₃]
    exact (ends hy).1
  · rw [h₃]
    exact (ends hy).2

/-- What edges and triangles refer to is there. -/
structure Whole (m : Mesh α) : Prop where
  ends : ∀ e ∈ m.edges, e.ends.1 < m.vertices.length ∧ e.ends.2 < m.vertices.length
  corners : ∀ t ∈ m.triangles, t.corners.1 < m.vertices.length ∧
    t.corners.2.1 < m.vertices.length ∧ t.corners.2.2 < m.vertices.length

theorem Consistent.whole (h : m.Consistent) : m.Whole := ⟨h.ends, fun _ => h.corners_lt⟩

/-- In a mesh in order, only fields can be amiss. -/
theorem Consistent.validate_eq (h : m.Consistent) :
    m.validate = validateFields m.vertices.length m.fields := by
  rw [Mesh.validate, h.misplacedVertex?, h.danglingEnd?, h.openTriangle?]

/-- A mesh in order passes its check when its fields are as long as its vertices need. -/
theorem Consistent.validate (h : m.Consistent)
    (hfields : ∀ f ∈ m.fields, Field.Complete m.vertices.length f) : m.validate = .ok () :=
  h.validate_eq.trans (validateFields_complete hfields)

end Mesh

end Cosimulation

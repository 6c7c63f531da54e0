import Cosimulation.Proofs.Data.Triples
import Cosimulation.Proofs.Mesh.Validity

/-!
# Triangles from edges

Three edges of a mesh are taken for a triangle by looking for an end that the first two share, and
the first match decides. What comes out does not show this: the triangle has as corners the ends of
its first edge and the one vertex across from it (`Apex`, `closedTriangle?_eq_some_iff`), and these
are the ends of the three edges all together (`Apex.isCorner_iff`).

So three edges are accepted exactly if they exist and join three different vertices pairwise. Their
order and the directions in which they point matter neither to this nor to the set of corners; they
only decide which corner comes first (`addTriangle_accepts`).
-/

namespace Cosimulation

variable {a b c : Nat × Nat} {u v z : Nat}

/-! ## Edges without a direction -/

theorem joins_comm : Joins a u v ↔ Joins a v u := Or.comm

theorem joins_swap : Joins a.swap u v ↔ Joins a u v := by
  obtain ⟨x, y⟩ := a
  simp only [Joins, Prod.swap_prod_mk, Prod.mk.injEq]
  tauto

/-- Two edges join the same vertices; one of them may point the other way. -/
def Alike (a b : Nat × Nat) : Prop := b = a ∨ b = a.swap

theorem Alike.symm (h : Alike a b) : Alike b a := by
  obtain rfl | rfl := h
  · exact .inl rfl
  · exact .inr (Prod.swap_swap a).symm

theorem Alike.joins (h : Alike a b) : Joins b u v ↔ Joins a u v := by
  obtain rfl | rfl := h
  · exact Iff.rfl
  · exact joins_swap

theorem Alike.isEnd (h : Alike a b) : isEnd v b = isEnd v a := by
  obtain rfl | rfl := h
  · rfl
  · exact Bool.or_comm _ _

theorem FormTriangle.swap (h : FormTriangle a b c) : FormTriangle b a c := by
  obtain ⟨u, v, w, huv, hvw, huw, ha, hb, hc⟩ := h
  exact ⟨w, v, u, hvw.symm, huv.symm, huw.symm, joins_comm.1 hb, joins_comm.1 ha, joins_comm.1 hc⟩

theorem FormTriangle.rotate (h : FormTriangle a b c) : FormTriangle b c a := by
  obtain ⟨u, v, w, huv, hvw, huw, ha, hb, hc⟩ := h
  exact ⟨v, w, u, hvw, huw.symm, huv.symm, hb, hc, ha⟩

/-- Whether edges form a triangle does not depend on their order. -/
theorem formTriangle_perm {a' b' c' : Nat × Nat} (h : [a', b', c'].Perm [a, b, c]) :
    FormTriangle a' b' c' = FormTriangle a b c :=
  eq_of_perm (fun _ _ _ => propext ⟨.swap, .swap⟩)
    (fun _ _ _ => propext ⟨fun h => h.rotate.rotate, .rotate⟩) h

/-- Nor on their directions. -/
theorem formTriangle_alike {a' b' c' : Nat × Nat} (ha : Alike a a') (hb : Alike b b')
    (hc : Alike c c') : FormTriangle a' b' c' ↔ FormTriangle a b c := by
  simp only [FormTriangle, ha.joins, hb.joins, hc.joins]

/-- None of three edges is a loop, and no two of them join the same vertices. -/
structure SimpleEdges (a b c : Nat × Nat) : Prop where
  loopless : a.1 ≠ a.2 ∧ b.1 ≠ b.2 ∧ c.1 ≠ c.2
  single : ¬ Alike a b ∧ ¬ Alike b c ∧ ¬ Alike c a

theorem FormTriangle.first (h : FormTriangle a b c) : a.1 ≠ a.2 ∧ ¬ Alike a b := by
  obtain ⟨u, v, w, huv, hvw, huw, ha, hb, -⟩ := h
  refine ⟨?_, fun halike => ?_⟩
  · rcases ha with rfl | rfl
    · exact huv
    · exact huv.symm
  · have hends : Joins a v w := halike.joins.1 hb
    rcases ha with rfl | rfl <;> simp only [Joins, Prod.mk.injEq] at hends <;> omega

theorem FormTriangle.simple (h : FormTriangle a b c) : SimpleEdges a b c :=
  ⟨⟨h.first.1, h.rotate.first.1, h.rotate.rotate.first.1⟩,
    h.first.2, h.rotate.first.2, h.rotate.rotate.first.2⟩

/-! ## The corner across from the first edge -/

/-- The vertex that two edges join to the ends of a first one, all three of them different. -/
structure Apex (a b c : Nat × Nat) (z : Nat) : Prop where
  base : a.1 ≠ a.2
  off_first : z ≠ a.1
  off_second : z ≠ a.2
  legs : Joins b a.1 z ∧ Joins c a.2 z ∨ Joins b a.2 z ∧ Joins c a.1 z

theorem Apex.closedTriangle? (h : Apex a b c z) : closedTriangle? a b c = some (a.1, a.2, z) := by
  obtain ⟨hbase, hfirst, hsecond, ⟨hb, hc⟩ | ⟨hb, hc⟩⟩ := h <;>
    rcases hb with rfl | rfl <;> rcases hc with rfl | rfl <;>
    simp [Cosimulation.closedTriangle?, isEnd, otherEnd, hbase, hbase.symm, hfirst, hfirst.symm,
      hsecond, hsecond.symm]

theorem FormTriangle.apex (h : FormTriangle a b c) : ∃ z, Apex a b c z := by
  obtain ⟨u, v, w, huv, hvw, huw, ha, hb, hc⟩ := h
  rcases ha with rfl | rfl
  · exact ⟨w, huv, huw.symm, hvw.symm, .inr ⟨hb, joins_comm.1 hc⟩⟩
  · exact ⟨w, huv.symm, hvw.symm, huw.symm, .inl ⟨hb, joins_comm.1 hc⟩⟩

/-- Three edges are taken for the triangle over the first edge and the vertex across from it. -/
theorem closedTriangle?_eq_some_iff {corners : Nat × Nat × Nat} :
    closedTriangle? a b c = some corners ↔ ∃ z, Apex a b c z ∧ corners = (a.1, a.2, z) := by
  constructor
  · intro h
    obtain ⟨z, hz⟩ := (isSome_closedTriangle?.1 (Option.isSome_of_eq_some h)).apex
    exact ⟨z, hz, Option.some.inj (h.symm.trans hz.closedTriangle?)⟩
  · rintro ⟨z, hz, rfl⟩
    exact hz.closedTriangle?

example : closedTriangle? (1, 0) (0, 2) (2, 1) = some (1, 0, 2) := rfl

example : closedTriangle? (0, 1) (1, 2) (2, 3) = none := rfl

/-- A vertex is among the given corners. -/
def IsCorner (v : Nat) (corners : Nat × Nat × Nat) : Prop :=
  v = corners.1 ∨ v = corners.2.1 ∨ v = corners.2.2

/-- The corners are the ends of the edges. -/
theorem Apex.isCorner_iff (h : Apex a b c z) : IsCorner v (a.1, a.2, z) ↔
    isEnd v a = true ∨ isEnd v b = true ∨ isEnd v c = true := by
  obtain ⟨-, -, -, ⟨hb, hc⟩ | ⟨hb, hc⟩⟩ := h <;>
    rcases hb with rfl | rfl <;> rcases hc with rfl | rfl <;>
    simp only [IsCorner, isEnd, Bool.or_eq_true, beq_iff_eq] <;> tauto

namespace Mesh

section
variable {α : Type} {m m' : Mesh α} {i j k : Nat}

/-! ## Edges of a mesh -/

theorem addTriangle_ok_iff {edges : Nat × Nat × Nat} : m.addTriangle edges = .ok m' ↔
    ∃ corners, m.corners? edges = some corners ∧
      { m with triangles := m.triangles ++ [⟨m.triangles.length, edges, corners⟩] } = m' := by
  unfold addTriangle
  cases m.corners? edges with
  | none => simp
  | some corners => simp

/-- Three edges exist and, in some order, join three different vertices pairwise. -/
def CloseUp (m : Mesh α) (i j k : Nat) : Prop :=
  ∃ a b c, m.edges[i]? = some a ∧ m.edges[j]? = some b ∧ m.edges[k]? = some c ∧
    ∃ p q r, [p, q, r].Perm [a.ends, b.ends, c.ends] ∧ FormTriangle p q r

/-- The order in which they do does not matter. -/
theorem closeUp_iff : m.CloseUp i j k ↔ ∃ a b c, m.edges[i]? = some a ∧ m.edges[j]? = some b ∧
    m.edges[k]? = some c ∧ FormTriangle a.ends b.ends c.ends := by
  constructor
  · rintro ⟨a, b, c, ha, hb, hc, p, q, r, hperm, h⟩
    exact ⟨a, b, c, ha, hb, hc, formTriangle_perm hperm ▸ h⟩
  · rintro ⟨a, b, c, ha, hb, hc, h⟩
    exact ⟨a, b, c, ha, hb, hc, _, _, _, .refl _, h⟩

theorem CloseUp.swap (h : m.CloseUp i j k) : m.CloseUp j i k := by
  obtain ⟨a, b, c, ha, hb, hc, h⟩ := closeUp_iff.1 h
  exact closeUp_iff.2 ⟨b, a, c, hb, ha, hc, h.swap⟩

theorem CloseUp.rotate (h : m.CloseUp i j k) : m.CloseUp j k i := by
  obtain ⟨a, b, c, ha, hb, hc, h⟩ := closeUp_iff.1 h
  exact closeUp_iff.2 ⟨b, c, a, hb, hc, ha, h.rotate⟩

theorem closeUp_perm {i' j' k' : Nat} (h : [i', j', k'].Perm [i, j, k]) :
    m.CloseUp i' j' k' = m.CloseUp i j k :=
  eq_of_perm (fun _ _ _ => propext ⟨.swap, .swap⟩)
    (fun _ _ _ => propext ⟨fun h => h.rotate.rotate, .rotate⟩) h

/-- A vertex is an end of one of three edges. -/
def IsEndAmong (m : Mesh α) (i j k v : Nat) : Prop :=
  ∃ n ∈ [i, j, k], ∃ e, m.edges[n]? = some e ∧ isEnd v e.ends = true

theorem isEndAmong_perm {i' j' k' v : Nat} (h : [i', j', k'].Perm [i, j, k]) :
    m.IsEndAmong i' j' k' v ↔ m.IsEndAmong i j k v :=
  exists_congr fun _ => and_congr_left' h.mem_iff

/-- Two meshes have the same edges, some of which may point the other way. -/
def SameUndirected (m m' : Mesh α) : Prop :=
  List.Forall₂ (fun e e' => Alike e.ends e'.ends) m.edges m'.edges

theorem SameUndirected.symm (h : m.SameUndirected m') : m'.SameUndirected m :=
  h.flip.imp fun _ _ halike => Alike.symm halike

theorem SameUndirected.edge (h : m.SameUndirected m') {e : Edge} (he : m.edges[i]? = some e) :
    ∃ e', m'.edges[i]? = some e' ∧ Alike e.ends e'.ends := by
  obtain ⟨hlength, hget⟩ := List.forall₂_iff_get.1 h
  obtain ⟨hi, rfl⟩ := List.getElem?_eq_some_iff.1 he
  exact ⟨_, List.getElem?_eq_getElem (hlength ▸ hi), hget i hi (hlength ▸ hi)⟩

theorem SameUndirected.closeUp (h : m.SameUndirected m') (hm : m.CloseUp i j k) :
    m'.CloseUp i j k := by
  obtain ⟨a, b, c, ha, hb, hc, hform⟩ := closeUp_iff.1 hm
  obtain ⟨a', ha', hxa⟩ := h.edge ha
  obtain ⟨b', hb', hxb⟩ := h.edge hb
  obtain ⟨c', hc', hxc⟩ := h.edge hc
  exact closeUp_iff.2 ⟨a', b', c', ha', hb', hc', (formTriangle_alike hxa hxb hxc).2 hform⟩

theorem SameUndirected.isEndAmong (h : m.SameUndirected m') {v : Nat}
    (hv : m.IsEndAmong i j k v) : m'.IsEndAmong i j k v := by
  obtain ⟨n, hn, e, he, hend⟩ := hv
  obtain ⟨e', he', halike⟩ := h.edge he
  exact ⟨n, hn, e', he', halike.isEnd.trans hend⟩

/-! ## What is accepted -/

theorem corners?_eq_some_iff_apex {corners : Nat × Nat × Nat} :
    m.corners? (i, j, k) = some corners ↔ ∃ a b c z, m.edges[i]? = some a ∧ m.edges[j]? = some b ∧
      m.edges[k]? = some c ∧ Apex a.ends b.ends c.ends z ∧
      corners = (a.ends.1, a.ends.2, z) := by
  rw [corners?_eq_some_iff]
  constructor
  · rintro ⟨a, b, c, ha, hb, hc, h⟩
    obtain ⟨z, hz⟩ := closedTriangle?_eq_some_iff.1 h
    exact ⟨a, b, c, z, ha, hb, hc, hz⟩
  · rintro ⟨a, b, c, z, ha, hb, hc, hz⟩
    exact ⟨a, b, c, ha, hb, hc, closedTriangle?_eq_some_iff.2 ⟨z, hz⟩⟩

/-- The corners over three edges are different vertices: the ends of the first edge and one more.
Together they are the ends of the edges. -/
structure CornersOver (m : Mesh α) (i j k : Nat) (corners : Nat × Nat × Nat) : Prop where
  first : ∃ e, m.edges[i]? = some e ∧ e.ends = (corners.1, corners.2.1)
  distinct : corners.1 ≠ corners.2.1 ∧ corners.2.2 ≠ corners.1 ∧ corners.2.2 ≠ corners.2.1
  ends : ∀ v, IsCorner v corners ↔ m.IsEndAmong i j k v

theorem cornersOver {corners : Nat × Nat × Nat} (h : m.corners? (i, j, k) = some corners) :
    m.CornersOver i j k corners := by
  obtain ⟨a, b, c, z, ha, hb, hc, hz, rfl⟩ := corners?_eq_some_iff_apex.1 h
  refine ⟨⟨a, ha, rfl⟩, ⟨hz.base, hz.off_first, hz.off_second⟩, fun v => ?_⟩
  simp [hz.isCorner_iff, IsEndAmong, ha, hb, hc]

theorem exists_addTriangle_iff : (∃ m', m.addTriangle (i, j, k) = .ok m') ↔ m.CloseUp i j k := by
  rw [closeUp_iff]
  constructor
  · rintro ⟨m', h⟩
    obtain ⟨corners, hcorners, -⟩ := addTriangle_ok_iff.1 h
    obtain ⟨a, b, c, ha, hb, hc, hclosed⟩ := corners?_eq_some_iff.1 hcorners
    exact ⟨a, b, c, ha, hb, hc, isSome_closedTriangle?.1 (Option.isSome_of_eq_some hclosed)⟩
  · rintro ⟨a, b, c, ha, hb, hc, hform⟩
    obtain ⟨z, hz⟩ := hform.apex
    exact ⟨_, addTriangle_ok_iff.2
      ⟨_, corners?_eq_some_iff_apex.2 ⟨a, b, c, z, ha, hb, hc, hz, rfl⟩, rfl⟩⟩

/-- One triangle more than before: the next one, over the three edges. -/
def Gains (m : Mesh α) (i j k : Nat) (m' : Mesh α) (corners : Nat × Nat × Nat) : Prop :=
  m' = { m with triangles := m.triangles ++ [⟨m.triangles.length, (i, j, k), corners⟩] } ∧
    m.CornersOver i j k corners

theorem gains_of_addTriangle (h : m.addTriangle (i, j, k) = .ok m') :
    ∃ corners, m.Gains i j k m' corners := by
  obtain ⟨corners, hcorners, rfl⟩ := addTriangle_ok_iff.1 h
  exact ⟨corners, rfl, cornersOver hcorners⟩

/-- Three edges are accepted for a triangle exactly if they exist and close up; then none of them is
a loop and no two join the same vertices. The triangle has as corners the ends of the first edge in
its direction and one vertex more, all ends of the three edges. Otherwise the mesh stays as it is.
In another order, and with edges that point the other way, the same edges are accepted and have the
same corners. -/
theorem addTriangle_accepts [Zero α] (m : Mesh α) (i j k : Nat) :
    ((∃ m', m.addTriangle (i, j, k) = .ok m') ↔ m.CloseUp i j k) ∧
    (∀ a b c, m.CloseUp i j k → m.edges[i]? = some a → m.edges[j]? = some b →
      m.edges[k]? = some c → SimpleEdges a.ends b.ends c.ends) ∧
    (∀ m', m.addTriangle (i, j, k) = .ok m' → ∃ corners, m.Gains i j k m' corners) ∧
    (∀ fault, m.addTriangle (i, j, k) = .error fault →
      fault = .invalidTriangle m.name (i, j, k) ∧ m.after (.addTriangle (i, j, k)) = m) ∧
    ∀ (n : Mesh α) (i' j' k' : Nat), m.SameUndirected n → [i', j', k'].Perm [i, j, k] →
      ((∃ n', n.addTriangle (i', j', k') = .ok n') ↔ ∃ m', m.addTriangle (i, j, k) = .ok m') ∧
      ∀ m' n', m.addTriangle (i, j, k) = .ok m' → n.addTriangle (i', j', k') = .ok n' →
        ∃ t t', m'.triangles = m.triangles ++ [t] ∧ n'.triangles = n.triangles ++ [t'] ∧
          ∀ v, IsCorner v t'.corners ↔ IsCorner v t.corners := by
  refine ⟨exists_addTriangle_iff, fun a b c h ha hb hc => ?_, fun m' h => gains_of_addTriangle h,
    fun fault h => ?_, fun n i' j' k' hsame hperm => ⟨?_, fun m' n' h h' => ?_⟩⟩
  · obtain ⟨a', b', c', ha', hb', hc', hform⟩ := closeUp_iff.1 h
    obtain rfl := Option.some.inj (ha.symm.trans ha')
    obtain rfl := Option.some.inj (hb.symm.trans hb')
    obtain rfl := Option.some.inj (hc.symm.trans hc')
    exact hform.simple
  · have hafter : m.after (.addTriangle (i, j, k)) = m := by
      rw [after, apply, h]
      rfl
    refine ⟨?_, hafter⟩
    unfold addTriangle at h
    split at h
    next => exact (Except.error.inj h).symm
    next => cases h
  · rw [exists_addTriangle_iff, exists_addTriangle_iff, closeUp_perm hperm]
    exact ⟨hsame.symm.closeUp, hsame.closeUp⟩
  · obtain ⟨corners, rfl, hover⟩ := gains_of_addTriangle h
    obtain ⟨corners', rfl, hover'⟩ := gains_of_addTriangle h'
    refine ⟨_, _, rfl, rfl, fun v => ?_⟩
    rw [hover.ends, hover'.ends, isEndAmong_perm hperm]
    exact ⟨hsame.symm.isEndAmong, hsame.isEndAmong⟩

end

end Mesh

end Cosimulation

import Mathlib.Analysis.InnerProductSpace.Basic
import Mathlib.Analysis.InnerProductSpace.Orthonormal
import Mathlib.Topology.MetricSpace.HausdorffDistance

/-!
# Orthonormal lists

Lists of vectors of a real inner product space, taken as an orthonormal basis of what they span.

`combine r qs` is the combination of the vectors `qs` with the coefficients `r`; coefficients that
are not there count as zero. Over an orthonormal list the coefficients are the products with the
vectors (`inner_combine`). What remains of a vector after its components are taken out, `residue`,
is orthogonal to the list (`inner_residue`), so its length is the distance to the span
(`infDist_spanned`).
-/

namespace Cosimulation

open scoped RealInnerProductSpace

variable {E : Type} [NormedAddCommGroup E] [InnerProductSpace ℝ E]

/-! ## Combinations -/

/-- The combination of vectors with coefficients, as far as both lists go. -/
def combine (r : List ℝ) (qs : List E) : E := (List.zipWith (· • ·) r qs).sum

@[simp]
theorem combine_nil (qs : List E) : combine [] qs = 0 := rfl

@[simp]
theorem combine_cons (a : ℝ) (r : List ℝ) (q : E) (qs : List E) :
    combine (a :: r) (q :: qs) = a • q + combine r qs := List.sum_cons

theorem combine_append {r : List ℝ} {qs : List E} (h : r.length = qs.length) (r' : List ℝ)
    (qs' : List E) : combine (r ++ r') (qs ++ qs') = combine r qs + combine r' qs' := by
  rw [combine, List.zipWith_append h, List.sum_append]
  rfl

/-- Vectors beyond the coefficients take no part. -/
theorem combine_append_right {r : List ℝ} : ∀ {qs : List E}, r.length ≤ qs.length →
    ∀ qs' : List E, combine r (qs ++ qs') = combine r qs := by
  induction r with
  | nil => intro qs _ qs'; rfl
  | cons a r ih =>
    intro qs h qs'
    cases qs with
    | nil => exact absurd h (Nat.not_succ_le_zero _)
    | cons q qs =>
      rw [List.cons_append, combine_cons, combine_cons, ih (Nat.le_of_succ_le_succ h)]

theorem combine_zeros (m : Nat) (qs : List E) : combine (List.replicate m 0) qs = 0 := by
  induction m generalizing qs with
  | zero => rfl
  | succ m ih =>
    cases qs with
    | nil => rfl
    | cons q qs => rw [List.replicate_succ, combine_cons, ih, zero_smul, add_zero]

theorem combine_neg (r : List ℝ) : ∀ qs : List E, combine (r.map (- ·)) qs = -combine r qs := by
  induction r with
  | nil => intro qs; exact neg_zero.symm
  | cons a r ih =>
    intro qs
    cases qs with
    | nil => exact neg_zero.symm
    | cons q qs => rw [List.map_cons, combine_cons, combine_cons, ih, neg_smul, neg_add]

/-- A linear map takes combinations to combinations. -/
theorem map_combine {F : Type} [NormedAddCommGroup F] [InnerProductSpace ℝ F] (L : E →ₗ[ℝ] F)
    (r : List ℝ) : ∀ qs : List E, L (combine r qs) = combine r (qs.map L) := by
  induction r with
  | nil => intro qs; exact L.map_zero
  | cons a r ih =>
    intro qs
    cases qs with
    | nil => exact L.map_zero
    | cons q qs => rw [List.map_cons, combine_cons, combine_cons, map_add, map_smul, ih]

/-- A combination as a sum over the positions of the vectors. -/
theorem combine_eq_sum (qs : List E) : ∀ r : List ℝ,
    combine r qs = ∑ i : Fin qs.length, r[(i : Nat)]?.getD 0 • qs.get i := by
  induction qs with
  | nil =>
    intro r
    rw [combine, List.zipWith_nil_right]
    rfl
  | cons q qs ih =>
    intro r
    refine Eq.trans ?_ (Fin.sum_univ_succ (n := qs.length) _).symm
    cases r with
    | nil => exact ((congrArg₂ (· + ·) (zero_smul ℝ q)
        (Finset.sum_eq_zero fun i _ => zero_smul ℝ (qs.get i))).trans (add_zero 0)).symm
    | cons a r =>
      rw [combine_cons, ih r]
      rfl

/-- The subspace that a list of vectors spans. -/
def spanned (qs : List E) : Submodule ℝ E := Submodule.span ℝ {q | q ∈ qs}

theorem mem_spanned {q : E} {qs : List E} (h : q ∈ qs) : q ∈ spanned qs :=
  Submodule.subset_span h

theorem spanned_le {qs : List E} {V : Submodule ℝ E} (h : ∀ q ∈ qs, q ∈ V) : spanned qs ≤ V :=
  Submodule.span_le.2 h

theorem combine_mem {V : Submodule ℝ E} (r : List ℝ) : ∀ {qs : List E}, (∀ q ∈ qs, q ∈ V) →
    combine r qs ∈ V := by
  induction r with
  | nil => intro qs _; exact V.zero_mem
  | cons a r ih =>
    intro qs h
    cases qs with
    | nil => exact V.zero_mem
    | cons q qs =>
      rw [combine_cons]
      exact V.add_mem (V.smul_mem a (h q List.mem_cons_self))
        (ih fun p hp => h p (List.mem_cons_of_mem _ hp))

/-- The members of the span are the combinations. -/
theorem exists_combine {x : E} {qs : List E} (h : x ∈ spanned qs) :
    ∃ r : List ℝ, r.length = qs.length ∧ combine r qs = x := by
  induction qs generalizing x with
  | nil =>
    refine ⟨[], rfl, ?_⟩
    have hset : {q : E | q ∈ []} = ∅ := Set.ext fun q => iff_of_false List.not_mem_nil id
    rw [spanned, hset, Submodule.span_empty, Submodule.mem_bot] at h
    exact h.symm
  | cons q qs ih =>
    have hset : {p | p ∈ q :: qs} = insert q {p | p ∈ qs} := Set.ext fun _ => List.mem_cons
    rw [spanned, hset, Submodule.mem_span_insert] at h
    obtain ⟨a, z, hz, rfl⟩ := h
    obtain ⟨r, hr, rfl⟩ := ih hz
    exact ⟨a :: r, congrArg (· + 1) hr, combine_cons a r q qs⟩

theorem inner_combine_eq_zero {x : E} (r : List ℝ) : ∀ {qs : List E}, (∀ q ∈ qs, ⟪x, q⟫ = 0) →
    ⟪x, combine r qs⟫ = 0 := by
  induction r with
  | nil => intro qs _; exact inner_zero_right x
  | cons a r ih =>
    intro qs h
    cases qs with
    | nil => exact inner_zero_right x
    | cons q qs =>
      rw [combine_cons, inner_add_right, inner_smul_right, h q List.mem_cons_self,
        ih fun p hp => h p (List.mem_cons_of_mem _ hp), mul_zero, add_zero]

/-! ## Orthonormal lists -/

/-- Vectors of length one, any two of them orthogonal. -/
def OrthonormalList (qs : List E) : Prop :=
  (∀ q ∈ qs, ‖q‖ = 1) ∧ qs.Pairwise fun p q => ⟪p, q⟫ = 0

namespace OrthonormalList

theorem nil : OrthonormalList ([] : List E) := ⟨fun _ h => absurd h List.not_mem_nil, .nil⟩

theorem cons_iff {q : E} {qs : List E} :
    OrthonormalList (q :: qs) ↔ ‖q‖ = 1 ∧ (∀ p ∈ qs, ⟪q, p⟫ = 0) ∧ OrthonormalList qs := by
  constructor
  · rintro ⟨h1, h2⟩
    obtain ⟨hq, hqs⟩ := List.pairwise_cons.1 h2
    exact ⟨h1 q List.mem_cons_self, hq, fun p hp => h1 p (List.mem_cons_of_mem _ hp), hqs⟩
  · rintro ⟨h1, h2, h3, h4⟩
    exact ⟨List.forall_mem_cons.2 ⟨h1, h3⟩, List.pairwise_cons.2 ⟨h2, h4⟩⟩

theorem append_iff {ps qs : List E} :
    OrthonormalList (ps ++ qs) ↔
      OrthonormalList ps ∧ OrthonormalList qs ∧ ∀ p ∈ ps, ∀ q ∈ qs, ⟪p, q⟫ = 0 := by
  constructor
  · rintro ⟨h1, h2⟩
    obtain ⟨hp, hq, hpq⟩ := List.pairwise_append.1 h2
    exact ⟨⟨fun p h => h1 p (List.mem_append_left _ h), hp⟩,
      ⟨fun q h => h1 q (List.mem_append_right _ h), hq⟩, hpq⟩
  · rintro ⟨⟨hp1, hp2⟩, ⟨hq1, hq2⟩, hpq⟩
    exact ⟨List.forall_mem_append.2 ⟨hp1, hq1⟩, List.pairwise_append.2 ⟨hp2, hq2, hpq⟩⟩

theorem inner_self {qs : List E} (h : OrthonormalList qs) {q : E} (hq : q ∈ qs) : ⟪q, q⟫ = 1 := by
  rw [real_inner_self_eq_norm_sq, h.1 q hq, one_pow]

/-- The products of two vectors of the list. -/
theorem inner_getElem {qs : List E} (h : OrthonormalList qs) (i j : Nat) (hi : i < qs.length)
    (hj : j < qs.length) : ⟪qs[i], qs[j]⟫ = if i = j then 1 else 0 := by
  rcases Nat.lt_trichotomy i j with hij | rfl | hij
  · rw [if_neg (Nat.ne_of_lt hij)]
    exact List.pairwise_iff_getElem.1 h.2 i j hi hj hij
  · rw [if_pos rfl]
    exact h.inner_self (List.getElem_mem hi)
  · rw [if_neg (Nat.ne_of_gt hij), real_inner_comm]
    exact List.pairwise_iff_getElem.1 h.2 j i hj hi hij

theorem orthonormal {qs : List E} (h : OrthonormalList qs) : Orthonormal ℝ qs.get := by
  rw [orthonormal_iff_ite]
  intro i j
  refine (h.inner_getElem i j i.isLt j.isLt).trans ?_
  simp only [Fin.ext_iff]

/-- The coefficients of a combination are its products with the vectors. -/
theorem inner_combine {qs : List E} (h : OrthonormalList qs) : ∀ {r : List ℝ},
    r.length = qs.length → (qs.map fun q => ⟪q, combine r qs⟫) = r := by
  induction qs with
  | nil => intro r hr; exact (List.length_eq_zero_iff.1 hr).symm
  | cons q qs ih =>
    intro r hr
    obtain ⟨hq, hqs, hrest⟩ := cons_iff.1 h
    cases r with
    | nil => exact absurd hr (Nat.succ_ne_zero _).symm
    | cons a r =>
      have hself : ⟪q, q⟫ = 1 := h.inner_self List.mem_cons_self
      rw [List.map_cons, combine_cons, inner_add_right, inner_smul_right, hself,
        inner_combine_eq_zero r hqs, mul_one, add_zero]
      congr 1
      refine Eq.trans (List.map_congr_left fun p hp => ?_) (ih hrest (Nat.succ.inj hr))
      rw [inner_add_right, inner_smul_right, real_inner_comm, hqs p hp, mul_zero, zero_add]

end OrthonormalList

/-! ## What remains of a vector -/

/-- What remains of a vector after its components along the list are taken out. -/
noncomputable def residue (qs : List E) (v : E) : E := v - combine (qs.map fun q => ⟪q, v⟫) qs

/-- Taking out the part along one vector leaves the parts along the others. -/
theorem OrthonormalList.inner_sub {q : E} {qs : List E} (h : OrthonormalList (q :: qs)) (v : E) :
    ∀ p ∈ qs, ⟪p, v - ⟪q, v⟫ • q⟫ = ⟪p, v⟫ := by
  intro p hp
  obtain ⟨-, hq, -⟩ := cons_iff.1 h
  rw [inner_sub_right, inner_smul_right, real_inner_comm q p, hq p hp, mul_zero, sub_zero]

/-- The residue can be taken vector by vector. -/
theorem OrthonormalList.residue_cons {q : E} {qs : List E} (h : OrthonormalList (q :: qs)) (v : E) :
    residue (q :: qs) v = residue qs (v - ⟪q, v⟫ • q) := by
  rw [residue, residue, List.map_cons, combine_cons, List.map_congr_left (h.inner_sub v)]
  abel

/-- A vector orthogonal to the list is its own residue. -/
theorem residue_of_inner {qs : List E} {v : E} (h : ∀ q ∈ qs, ⟪q, v⟫ = 0) : residue qs v = v := by
  rw [residue, List.map_congr_left h, List.map_const', combine_zeros, sub_zero]

theorem inner_residue {qs : List E} (h : OrthonormalList qs) (v : E) :
    ∀ q ∈ qs, ⟪q, residue qs v⟫ = 0 := by
  intro q hq
  have hc := h.inner_combine (r := qs.map fun q => ⟪q, v⟫) (List.length_map _)
  rw [residue, inner_sub_right, List.map_inj_left.1 hc q hq, sub_self]

theorem inner_residue_of_mem {qs : List E} (h : OrthonormalList qs) (v : E) {x : E}
    (hx : x ∈ spanned qs) : ⟪x, residue qs v⟫ = 0 := by
  induction hx using Submodule.span_induction with
  | mem q hq => exact inner_residue h v q hq
  | zero => exact inner_zero_left _
  | add x y _ _ hx hy => rw [inner_add_left, hx, hy, add_zero]
  | smul a x _ hx => rw [inner_smul_left, hx, mul_zero]

theorem sub_residue_mem (qs : List E) (v : E) : v - residue qs v ∈ spanned qs := by
  rw [residue, sub_sub_cancel]
  exact combine_mem _ fun q hq => mem_spanned hq

/-- A combination that reaches to a last vector `q` has its other coefficients as products with the
vectors before `q`, and its part along `q` as residue. -/
theorem OrthonormalList.residue_combine_concat {ps : List E} {q : E}
    (h : OrthonormalList (ps ++ [q])) {r : List ℝ} (hr : r.length = ps.length) (a : ℝ) :
    (ps.map fun p => ⟪p, combine (r ++ [a]) (ps ++ [q])⟫) = r ∧
      residue ps (combine (r ++ [a]) (ps ++ [q])) = a • q := by
  have hl : (r ++ [a]).length = (ps ++ [q]).length := by
    rw [List.length_append, List.length_append, hr]
    rfl
  have hmap := h.inner_combine hl
  rw [List.map_append] at hmap
  obtain ⟨hparts, -⟩ := List.append_inj hmap (by rw [List.length_map, hr])
  refine ⟨hparts, ?_⟩
  rw [residue, hparts, combine_append hr, add_sub_cancel_left, combine_cons, combine_nil, add_zero]

/-- No vector of the span is nearer than the one that leaves the residue. -/
theorem norm_residue_le {qs : List E} (h : OrthonormalList qs) (v : E) {x : E}
    (hx : x ∈ spanned qs) : ‖residue qs v‖ ≤ ‖v - x‖ := by
  have hy : v - residue qs v - x ∈ spanned qs := Submodule.sub_mem _ (sub_residue_mem qs v) hx
  have ho := inner_residue_of_mem h v hy
  -- Pythagoras, with the residue as one leg
  have hp : ‖v - x‖ * ‖v - x‖ = ‖v - residue qs v - x‖ * ‖v - residue qs v - x‖ +
      ‖residue qs v‖ * ‖residue qs v‖ := by
    rw [← norm_add_sq_eq_norm_sq_add_norm_sq_of_inner_eq_zero _ _ ho]
    rw [show v - residue qs v - x + residue qs v = v - x by abel]
  rw [mul_self_le_mul_self_iff (norm_nonneg _) (norm_nonneg _), hp]
  exact le_add_of_nonneg_left (mul_self_nonneg _)

/-- The distance to the span is the length of the residue. -/
theorem infDist_spanned {qs : List E} (h : OrthonormalList qs) (v : E) :
    Metric.infDist v (spanned qs : Set E) = ‖residue qs v‖ := by
  refine le_antisymm ?_ ?_
  · refine (Metric.infDist_le_dist_of_mem (sub_residue_mem qs v)).trans_eq ?_
    rw [dist_eq_norm, sub_sub_cancel]
  · refine (Metric.le_infDist ⟨0, Submodule.zero_mem _⟩).2 fun x hx => ?_
    rw [dist_eq_norm]
    exact norm_residue_le h v hx

/-- A vector is at least as far from a span as it reaches in a direction at right angles to it. -/
theorem le_infDist_spanned {x : E} {qs : List E} (hx : ‖x‖ ≤ 1) (horth : ∀ q ∈ qs, ⟪x, q⟫ = 0)
    (v : E) : ⟪x, v⟫ ≤ Metric.infDist v (spanned qs : Set E) := by
  refine (Metric.le_infDist ⟨0, Submodule.zero_mem _⟩).2 fun y hy => ?_
  obtain ⟨r, -, rfl⟩ := exists_combine hy
  calc ⟪x, v⟫ = ⟪x, v - combine r qs⟫ := by
        rw [inner_sub_right, inner_combine_eq_zero r horth, sub_zero]
    _ ≤ ‖x‖ * ‖v - combine r qs‖ := real_inner_le_norm _ _
    _ ≤ dist v (combine r qs) := by
        rw [dist_eq_norm]
        exact mul_le_of_le_one_left (norm_nonneg _) hx

/-- A combination of orthonormal vectors is as long as the list of its coefficients. -/
theorem OrthonormalList.norm_sq_combine {r : List ℝ} :
    ∀ {qs : List E}, OrthonormalList qs → r.length ≤ qs.length →
      ‖combine r qs‖ ^ 2 = (r.map (· ^ 2)).sum := by
  induction r with
  | nil =>
    intro qs _ _
    rw [combine_nil, norm_zero]
    norm_num
  | cons a r ih =>
    intro qs ho hl
    cases qs with
    | nil => exact absurd hl (Nat.not_succ_le_zero _)
    | cons q qs =>
      obtain ⟨hq, hqs, ho'⟩ := OrthonormalList.cons_iff.1 ho
      have horth : ⟪a • q, combine r qs⟫ = 0 := by
        rw [inner_smul_left, inner_combine_eq_zero r hqs, mul_zero]
      rw [combine_cons, norm_add_sq_real, horth, mul_zero, add_zero,
        ih ho' (Nat.le_of_succ_le_succ hl), norm_smul, hq, mul_one, Real.norm_eq_abs, sq_abs,
        List.map_cons, List.sum_cons]

end Cosimulation

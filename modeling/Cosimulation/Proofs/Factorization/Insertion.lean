import Mathlib.Data.List.Forall2
import Cosimulation.Proofs.Exact.Arithmetic
import Cosimulation.Proofs.Exact.Orthonormal
import Cosimulation.Proofs.Factorization.Shape

/-!
# Inserting a column in exact arithmetic

`Factorizes f cs` says that `f` is a factorization of the columns `cs`: the basis is orthonormal,
each column is the combination of the basis with its coefficients, and more than the refused share
of each column is new, which makes the diagonal positive.

One pass of orthogonalization already yields the products with the basis and the residue; the second
pass finds nothing to take out (`split_eq`). So a column is refused exactly when its residue is too
short (`insert_eq_none_iff`), and otherwise the grown factorization is one of the columns with the
new one appended (`insert_grown`). The check that follows never fails (`Shaped.checked`).
-/

namespace Cosimulation.Acceleration

open scoped RealInnerProductSpace

namespace Factorization

theorem refusedShare_pos : (0 : ℝ) < refusedShare := by
  unfold refusedShare
  norm_num

theorem refusedShare_lt : (refusedShare : ℝ) < 1 / 10 := by
  unfold refusedShare
  norm_num

/-! ## What is factorized -/

/-- The coefficients of a column on a basis: they combine to the column, and the last of them is
more than the refused share of its length. -/
structure Expresses {E : Type} [NormedAddCommGroup E] [InnerProductSpace ℝ E] (qs : List E)
    (r : List ℝ) (c : E) : Prop where
  combination : combine r qs = c
  accepted : refusedShare * ‖c‖ < r.getLastD 0

variable {n : Nat}

/-- The basis vectors as points of the space of columns. -/
noncomputable def points (n : Nat) (f : Factorization ℝ) : List (EuclideanSpace ℝ (Fin n)) :=
  f.basis.map (euclid n)

/-- What it means to factorize a list of columns of length `n`. -/
structure Factorizes (n : Nat) (f : Factorization ℝ) (cs : List (Vec ℝ)) : Prop where
  rows : f.rows = n
  shaped : f.Shaped
  basis_length : ∀ q ∈ f.basis, q.length = n
  column_length : ∀ c ∈ cs, c.length = n
  orthonormal : OrthonormalList (f.points n)
  expresses : List.Forall₂ (Expresses (f.points n)) f.upper (cs.map (euclid n))
  norms : f.norms = cs.map Vec.norm

theorem empty_factorizes (n : Nat) : Factorizes n (empty n) [] :=
  ⟨rfl, empty_shaped n, fun _ h => absurd h List.not_mem_nil, fun _ h => absurd h List.not_mem_nil,
    OrthonormalList.nil, .nil, rfl⟩

theorem Factorizes.columns_eq {f : Factorization ℝ} {cs : List (Vec ℝ)} (h : Factorizes n f cs) :
    f.columns = cs.length := by
  rw [← h.shaped.upper, h.expresses.length_eq, List.length_map]

/-- The diagonal is positive. -/
theorem Expresses.last_pos {E : Type} [NormedAddCommGroup E] [InnerProductSpace ℝ E] {qs : List E}
    {r : List ℝ} {c : E} (h : Expresses qs r c) : 0 < r.getLastD 0 :=
  lt_of_le_of_lt (mul_nonneg refusedShare_pos.le (norm_nonneg c)) h.accepted

theorem Factorizes.last_pos {f : Factorization ℝ} {cs : List (Vec ℝ)} (h : Factorizes n f cs) :
    ∀ r ∈ f.upper, 0 < r.getLastD 0 := by
  intro r hr
  obtain ⟨j, hj, rfl⟩ := List.mem_iff_getElem.1 hr
  exact (h.expresses.get hj (h.expresses.length_eq ▸ hj)).last_pos

@[simp]
theorem length_points (f : Factorization ℝ) : (f.points n).length = f.columns := List.length_map _

/-! ## The check -/

theorem firstLower_eq_none_iff {f : Factorization ℝ} {i : Nat} :
    f.firstLower i = none ↔ ∀ j < i, f.entry i j = 0 := by
  simp [firstLower]

theorem firstSkew_eq_none_iff {q : Vec ℝ} {i : Nat} : ∀ {ps : List (Vec ℝ)} {j : Nat},
    firstSkew q i j ps = none ↔ ∀ k (hk : k < ps.length),
      |q.dot ps[k] - if i = j + k then 1 else 0| ≤ orthonormalTolerance := by
  intro ps
  induction ps with
  | nil => exact fun {j} => ⟨fun _ k hk => absurd hk (Nat.not_lt_zero k), fun _ => rfl⟩
  | cons p ps ih =>
    intro j
    have hstep : firstSkew q i j (p :: ps) = none ↔
        |q.dot p - if i = j then 1 else 0| ≤ orthonormalTolerance ∧
          firstSkew q i (j + 1) ps = none := by
      show (if orthonormalTolerance < |q.dot p - (if i = j then (1 : ℝ) else 0)| then
        some _ else firstSkew q i (j + 1) ps) = none ↔ _
      by_cases hoff : orthonormalTolerance < |q.dot p - (if i = j then (1 : ℝ) else 0)|
      · rw [if_pos hoff]
        exact ⟨nofun, fun h => absurd hoff h.1.not_gt⟩
      · rw [if_neg hoff]
        exact ⟨fun h => ⟨not_lt.1 hoff, h⟩, And.right⟩
    rw [hstep, ih]
    constructor
    · rintro ⟨hfirst, hlater⟩ k hk
      cases k with
      | zero => exact hfirst
      | succ k =>
        rw [show j + (k + 1) = j + 1 + k by omega]
        exact hlater k (Nat.lt_of_succ_lt_succ hk)
    · refine fun h => ⟨h 0 (Nat.succ_pos _), fun k hk => ?_⟩
      rw [show j + 1 + k = j + (k + 1) by omega]
      exact h (k + 1) (Nat.succ_lt_succ hk)

/-- What the check finds in order. -/
theorem validate_ok_iff {f : Factorization ℝ} : f.validate = .ok () ↔
    f.shape = (f.columns, f.columns) ∧ f.norms.length = f.columns ∧
      ∀ i (hi : i < f.basis.length), (∀ j < i, f.entry i j = 0) ∧
        ∀ j (hj : j ≤ i), |f.basis[i].dot f.basis[j] - if i = j then 1 else 0| ≤
          orthonormalTolerance := by
  have hrows : (f.basis.zipIdx.findSome? fun (q, i) =>
      (f.firstLower i).or (firstSkew q i 0 (f.basis.take (i + 1)))) = none ↔
      ∀ i (hi : i < f.basis.length), (∀ j < i, f.entry i j = 0) ∧
        ∀ j (hj : j ≤ i), |f.basis[i].dot f.basis[j] - if i = j then 1 else 0| ≤
          orthonormalTolerance := by
    rw [List.findSome?_eq_none_iff]
    constructor
    · intro h i hi
      obtain ⟨hlower, hskew⟩ := Option.or_eq_none_iff.1
        (h (f.basis[i], i) (List.mk_mem_zipIdx_iff_getElem?.2 (List.getElem?_eq_getElem hi)))
      refine ⟨firstLower_eq_none_iff.1 hlower, fun j hj => ?_⟩
      have hproduct := firstSkew_eq_none_iff.1 hskew j (by rw [List.length_take]; omega)
      rwa [List.getElem_take, Nat.zero_add] at hproduct
    · rintro h ⟨q, i⟩ hq
      obtain ⟨hi, rfl⟩ := List.getElem?_eq_some_iff.1 (List.mk_mem_zipIdx_iff_getElem?.1 hq)
      obtain ⟨hlower, hproducts⟩ := h i hi
      refine Option.or_eq_none_iff.2 ⟨firstLower_eq_none_iff.2 hlower,
        firstSkew_eq_none_iff.2 fun k hk => ?_⟩
      rw [List.length_take] at hk
      rw [List.getElem_take, Nat.zero_add]
      exact hproducts k (by omega)
  rw [← hrows, validate]
  by_cases hshape : f.shape ≠ (f.columns, f.columns) ∨ f.norms.length ≠ f.columns
  · rw [if_pos hshape]
    exact ⟨nofun, fun h => hshape.elim (absurd h.1) (absurd h.2.1)⟩
  · rw [if_neg hshape]
    obtain ⟨hsquare, hnorms⟩ := not_or.1 hshape
    rw [and_iff_right (not_not.1 hsquare), and_iff_right (not_not.1 hnorms)]
    dsimp only
    split
    next fault hfault => exact ⟨nofun, fun hnone => by cases hfault.symm.trans hnone⟩
    next hnone => exact ⟨fun _ => hnone, fun _ => rfl⟩

/-- A shaped factorization with an orthonormal basis passes. -/
theorem Shaped.validate {f : Factorization ℝ} (hf : f.Shaped) (hl : ∀ q ∈ f.basis, q.length = n)
    (ho : OrthonormalList (f.points n)) : f.validate = .ok () := by
  refine validate_ok_iff.2 ⟨hf.shape_eq, hf.norms, fun i hi =>
    ⟨fun j hij => hf.entry_eq_zero hij, fun j hj => ?_⟩⟩
  have hj' : j < f.basis.length := Nat.lt_of_le_of_lt hj hi
  have hproduct := ho.inner_getElem i j (by rwa [points, List.length_map])
    (by rwa [points, List.length_map])
  simp only [points, List.getElem_map] at hproduct
  rw [dot_eq_inner (hl _ (List.getElem_mem hi)) (hl _ (List.getElem_mem hj')), hproduct, sub_self,
    abs_zero, orthonormalTolerance]
  norm_num

theorem Shaped.checked {f : Factorization ℝ} (hf : f.Shaped) (hl : ∀ q ∈ f.basis, q.length = n)
    (ho : OrthonormalList (f.points n)) : f.checked = .ok f := by
  rw [Factorization.checked, hf.validate hl ho]

/-! ## Splitting a column -/

section
variable {qs : List (Vec ℝ)}

theorem orthogonalize_eq (hl : ∀ q ∈ qs, q.length = n)
    (ho : OrthonormalList (qs.map (euclid n))) : ∀ {u : Vec ℝ}, u.length = n →
      (orthogonalize qs u).1 = qs.map (fun q => ⟪euclid n q, euclid n u⟫) ∧
      (orthogonalize qs u).2.length = n ∧
      euclid n (orthogonalize qs u).2 = residue (qs.map (euclid n)) (euclid n u) := by
  induction qs with
  | nil =>
    intro u hu
    exact ⟨rfl, hu, (sub_zero _).symm⟩
  | cons q qs ih =>
    intro u hu
    have hql : q.length = n := hl q List.mem_cons_self
    have hdot : q.dot u = ⟪euclid n q, euclid n u⟫ := dot_eq_inner hql hu
    have hal : (Vec.axpy (-q.dot u) q u).length = n :=
      (Vec.length_axpy (hql.trans hu.symm) _).trans hu
    have hx : euclid n (Vec.axpy (-q.dot u) q u) =
        euclid n u - ⟪euclid n q, euclid n u⟫ • euclid n q := by
      rw [euclid_axpy _ hql hu, hdot, neg_smul, neg_add_eq_sub]
    -- taking out one component does not change the products with the other vectors
    obtain ⟨h1, h2, h3⟩ := ih (fun p hp => hl p (List.mem_cons_of_mem _ hp))
      (OrthonormalList.cons_iff.1 ho).2.2 hal
    refine ⟨?_, h2, ?_⟩
    · show q.dot u :: (orthogonalize qs _).1 = _
      rw [h1, List.map_cons, ← hdot]
      congr 1
      refine List.map_congr_left fun p hp => ?_
      rw [hx]
      exact ho.inner_sub _ _ (List.mem_map_of_mem hp)
    · show euclid n (orthogonalize qs _).2 = _
      rw [h3, hx]
      exact (ho.residue_cons _).symm

/-- The second pass changes nothing: the coefficients of a split are the products with the basis,
and the rest is the residue. -/
theorem split_eq (hl : ∀ q ∈ qs, q.length = n) (ho : OrthonormalList (qs.map (euclid n)))
    {v : Vec ℝ} (hv : v.length = n) :
    (split qs v).1 = qs.map (fun q => ⟪euclid n q, euclid n v⟫) ∧
    (split qs v).2.length = n ∧
    euclid n (split qs v).2 = residue (qs.map (euclid n)) (euclid n v) := by
  obtain ⟨h1, h2, h3⟩ := orthogonalize_eq hl ho hv
  obtain ⟨h1', h2', h3'⟩ := orthogonalize_eq hl ho h2
  have hzero : ∀ p ∈ qs.map (euclid n), ⟪p, residue (qs.map (euclid n)) (euclid n v)⟫ = 0 :=
    inner_residue ho _
  refine ⟨?_, h2', ?_⟩
  · show List.zipWith (fun a b => 0 + a + b) (orthogonalize qs v).1
      (orthogonalize qs (orthogonalize qs v).2).1 = _
    rw [h1, h1', List.zipWith_map, List.zipWith_self]
    refine List.map_congr_left fun q hq => ?_
    rw [h3, hzero _ (List.mem_map_of_mem hq), zero_add, add_zero]
  · show euclid n (orthogonalize qs (orthogonalize qs v).2).2 = _
    rw [h3', h3]
    exact residue_of_inner hzero

end

/-! ## Inserting -/

section
variable {f : Factorization ℝ} {cs : List (Vec ℝ)} {v : Vec ℝ}

theorem points_grown (f : Factorization ℝ) (v : Vec ℝ) :
    (f.grown v).points n = f.points n ++
      [(split f.basis v).2.norm⁻¹ • euclid n (split f.basis v).2] := by
  show (f.basis ++ [_]).map (euclid n) = _
  rw [List.map_append, List.map_singleton, euclid_div]
  rfl

/-- What a column has in common with the basis, and what is left of it. -/
theorem Factorizes.split_parts (hf : Factorizes n f cs) (hv : v.length = n) :
    (Factorization.split f.basis v).1 = (f.points n).map (fun q => ⟪q, euclid n v⟫) ∧
    (Factorization.split f.basis v).2.length = n ∧
    (Factorization.split f.basis v).2.norm = ‖residue (f.points n) (euclid n v)‖ ∧
    euclid n (Factorization.split f.basis v).2 = residue (f.points n) (euclid n v) := by
  obtain ⟨h1, h2, h3⟩ := split_eq hf.basis_length hf.orthonormal hv
  refine ⟨?_, h2, ?_, h3⟩
  · rw [h1, points, List.map_map]
    rfl
  · rw [norm_eq_norm h2, h3]
    rfl

/-- A column of which too little is new is refused. -/
theorem Factorizes.insert_refused (hf : Factorizes n f cs) (hv : v.length = n)
    (h : ‖residue (f.points n) (euclid n v)‖ ≤ refusedShare * ‖euclid n v‖) :
    f.insert v = .ok none := by
  obtain ⟨-, -, hn, -⟩ := hf.split_parts hv
  have hb : (v.norm == 0 || decide ((Factorization.split f.basis v).2.norm ≤
      refusedShare * v.norm)) = true := by
    rw [hn, norm_eq_norm hv, decide_eq_true h, Bool.or_true]
  unfold insert
  rw [if_neg (fun hne => hne (hv.trans hf.rows.symm))]
  exact if_pos hb

/-- The grown basis is orthonormal when something of the column is new. -/
theorem Factorizes.grown_orthonormal (hf : Factorizes n f cs) (hv : v.length = n)
    (h : residue (f.points n) (euclid n v) ≠ 0) : OrthonormalList ((f.grown v).points n) := by
  obtain ⟨-, -, hn, he⟩ := hf.split_parts hv
  rw [points_grown, hn, he, OrthonormalList.append_iff, OrthonormalList.cons_iff]
  refine ⟨hf.orthonormal, ⟨norm_smul_inv_norm h, fun _ hp => absurd hp List.not_mem_nil,
    OrthonormalList.nil⟩, fun p hp q hq => ?_⟩
  obtain rfl := List.mem_singleton.1 hq
  rw [inner_smul_right, inner_residue hf.orthonormal _ p hp, mul_zero]

theorem Expresses.append_right {E : Type} [NormedAddCommGroup E] [InnerProductSpace ℝ E]
    {qs : List E} {r : List ℝ} {c : E} (h : Expresses qs r c) (hr : r.length ≤ qs.length)
    (qs' : List E) : Expresses (qs ++ qs') r c :=
  ⟨(combine_append_right hr qs').trans h.combination, h.accepted⟩

/-- A column of which enough is new is appended. -/
theorem Factorizes.insert_grown (hf : Factorizes n f cs) (hv : v.length = n)
    (h : refusedShare * ‖euclid n v‖ < ‖residue (f.points n) (euclid n v)‖) :
    f.insert v = .ok (some (f.grown v)) ∧ Factorizes n (f.grown v) (cs ++ [v]) := by
  obtain ⟨hc, hl, hn, he⟩ := hf.split_parts hv
  have hpos : 0 < ‖residue (f.points n) (euclid n v)‖ :=
    lt_of_le_of_lt (mul_nonneg refusedShare_pos.le (norm_nonneg _)) h
  have hne : residue (f.points n) (euclid n v) ≠ 0 := norm_pos_iff.1 hpos
  -- the zero vector lies in every span, so a vector with a residue is not zero
  have hvne : ‖euclid n v‖ ≠ 0 := by
    intro h0
    have hle := norm_residue_le hf.orthonormal (euclid n v) (Submodule.zero_mem _)
    rw [sub_zero, h0] at hle
    exact absurd hle (not_le.2 hpos)
  have hbasis : ∀ q ∈ (f.grown v).basis, q.length = n := by
    intro q hq
    rcases List.mem_append.1 hq with hq | hq
    · exact hf.basis_length q hq
    · rw [List.mem_singleton.1 hq, List.length_map]
      exact hl
  have ho := hf.grown_orthonormal hv hne
  have hb : (v.norm == 0 || decide ((Factorization.split f.basis v).2.norm ≤
      refusedShare * v.norm)) = false := by
    rw [hn, norm_eq_norm hv, decide_eq_false (not_le.2 h), Bool.or_false]
    exact beq_eq_false_iff_ne.2 hvne
  have hins : f.insert v = .ok (some (f.grown v)) := by
    unfold insert
    rw [if_neg (fun hne => hne (hv.trans hf.rows.symm))]
    refine (if_neg (ne_true_of_eq_false hb)).trans ?_
    show (f.grown v).checked >>= _ = _
    rw [(hf.shaped.grown v).checked hbasis ho]
    rfl
  refine ⟨hins, hf.rows, hf.shaped.grown v, hbasis, ?_, ho, ?_, ?_⟩
  · intro c hc
    rcases List.mem_append.1 hc with hc | hc
    · exact hf.column_length c hc
    · rw [List.mem_singleton.1 hc]
      exact hv
  · rw [List.map_append, points_grown, hn, he]
    refine List.rel_append ?_ (.cons ⟨?_, ?_⟩ .nil)
    · -- the older columns do not use the new basis vector
      refine ((List.forall₂_and_left _ _).2 ⟨hf.shaped.length_le, hf.expresses⟩).imp ?_
      rintro r c ⟨hr, hx⟩
      exact hx.append_right (by rwa [length_points]) _
    · rw [hc, combine_append (List.length_map _), combine_cons, combine_nil, add_zero, smul_smul,
        hn, mul_inv_cancel₀ hpos.ne', one_smul, residue, add_sub_cancel]
    · rw [List.getLastD_concat, hn]
      exact h
  · show f.norms ++ [v.norm] = _
    rw [hf.norms, List.map_append]
    rfl

/-- A column of the right length is refused or appended. -/
theorem Factorizes.insert_cases (hf : Factorizes n f cs) (hv : v.length = n) :
    f.insert v = .ok none ∨ ∃ f', f.insert v = .ok (some f') ∧ Factorizes n f' (cs ++ [v]) := by
  by_cases h : ‖residue (f.points n) (euclid n v)‖ ≤ refusedShare * ‖euclid n v‖
  · exact .inl (hf.insert_refused hv h)
  · exact .inr ⟨_, hf.insert_grown hv (not_le.1 h)⟩

/-- The first column is refused only if it is zero. -/
theorem insert_empty (hv : v.length = n) (hne : euclid n v ≠ 0) :
    (empty n : Factorization ℝ).insert v = .ok (some ((empty n).grown v)) := by
  refine ((empty_factorizes n).insert_grown hv ?_).1
  have hres : residue ((empty n : Factorization ℝ).points n) (euclid n v) = euclid n v :=
    residue_of_inner fun q hq => absurd hq List.not_mem_nil
  rw [hres]
  exact mul_lt_of_lt_one_left (norm_pos_iff.2 hne) (refusedShare_lt.trans (by norm_num))

/-- Insertion refuses exactly the columns of which no more than the refused share is new. -/
theorem Factorizes.insert_eq_none_iff (hf : Factorizes n f cs) (hv : v.length = n) :
    f.insert v = .ok none ↔
      ‖residue (f.points n) (euclid n v)‖ ≤ refusedShare * ‖euclid n v‖ := by
  refine ⟨fun h => ?_, hf.insert_refused hv⟩
  by_contra hlt
  rw [(hf.insert_grown hv (not_le.1 hlt)).1] at h
  cases h

end

end Factorization

end Cosimulation.Acceleration

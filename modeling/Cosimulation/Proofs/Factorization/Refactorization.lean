import Cosimulation.Proofs.Factorization.Deletion

/-!
# Refactorizing in exact arithmetic

`Factorizes.front` undoes an insertion: a factorization of the columns with one at the end is the
grown factorization of the others, by an insertion that would not be refused. Read backwards from
the last column, it says that the columns determine the factorization (`Factorizes.rebuild_eq`) and
that the basis spans what they span (`Factorizes.spanned_points`). That no column is refused the
second time, although fewer may stand before it than when it came in, is `Expresses.accepted`.

What a rebuild and a filter leave is a factorization of the columns they keep (`Factorizes.rebuild`,
`Filter.apply_factorizes`).
-/

namespace Cosimulation.Acceleration

open scoped RealInnerProductSpace

namespace Factorization

variable {n : Nat} {f : Factorization ℝ} {cs : List (Vec ℝ)}

/-! ## The last column -/

/-- The factorization of no columns is empty. -/
theorem Factorizes.eq_empty (hf : Factorizes n f []) : f = empty n :=
  Factorization.ext hf.rows (List.length_eq_zero_iff.1 hf.columns_eq)
    (List.forall₂_nil_right_iff.1 hf.expresses) hf.norms

/-- A list that is not empty has a last entry. -/
theorem exists_concat {β : Type} {xs : List β} {m : Nat} (h : xs.length = m + 1) :
    ∃ ys y, xs = ys ++ [y] ∧ ys.length = m := by
  rcases List.eq_nil_or_concat xs with rfl | ⟨ys, y, rfl⟩
  · exact absurd h (Nat.succ_ne_zero m).symm
  · rw [List.length_concat] at h
    exact ⟨ys, y, List.concat_eq_append, Nat.succ.inj h⟩

/-- Without the last basis vector and the last coefficients the factorization is one of the columns
before the last. -/
theorem Factorizes.front_parts {c q : Vec ℝ} {bs : List (Vec ℝ)} {r : List ℝ} {us : List (List ℝ)}
    (hf : Factorizes n f (cs ++ [c])) (hb : f.basis = bs ++ [q]) (hbl : bs.length = cs.length)
    (hu : f.upper = us ++ [r]) (hul : us.length = cs.length) :
    Factorizes n ⟨n, bs, us, cs.map Vec.norm⟩ cs ∧ r.length = cs.length + 1 ∧
      OrthonormalList (bs.map (euclid n) ++ [euclid n q]) ∧
      Expresses (bs.map (euclid n) ++ [euclid n q]) r (euclid n c) := by
  have hpoints : f.points n = bs.map (euclid n) ++ [euclid n q] := by
    rw [points, hb, List.map_append]
    rfl
  have ho := hf.orthonormal
  rw [hpoints] at ho
  have hst := hf.shaped.stairs
  rw [hu] at hst
  have hrl : r.length = cs.length + 1 := by
    have h := hst.length_getElem us.length (by rw [List.length_append]; exact Nat.lt_succ_self _)
    rw [List.getElem_concat_length rfl] at h
    omega
  have hshort : ∀ r ∈ us, r.length ≤ (bs.map (euclid n)).length := by
    intro r hr
    obtain ⟨j, hj, rfl⟩ := List.mem_iff_getElem.1 hr
    have h := hst.length_getElem j (Nat.lt_of_lt_of_le hj (by rw [List.length_append]; omega))
    rw [List.getElem_append_left hj] at h
    rw [List.length_map]
    omega
  have hex := hf.expresses
  rw [hu, hpoints, List.map_append] at hex
  have hlen : us.length = (cs.map (euclid n)).length := by rw [hul, List.length_map]
  have hexs := List.forall₂_take us.length hex
  have hexc := List.forall₂_drop us.length hex
  rw [List.take_left, hlen, List.take_left] at hexs
  rw [List.drop_left, hlen, List.drop_left] at hexc
  refine ⟨⟨rfl, ⟨hul.trans hbl.symm, (List.length_map _).trans hbl.symm, ?_⟩,
    fun p hp => hf.basis_length p (hb ▸ List.mem_append_left _ hp),
    fun d hd => hf.column_length d (List.mem_append_left _ hd),
    (OrthonormalList.append_iff.1 ho).1, ?_, rfl⟩, hrl, ho, ?_⟩
  · have h := hst.take us.length
    rwa [List.take_left] at h
  · -- the columns before the last do without the last basis vector
    refine ((List.forall₂_and_left _ _).2 ⟨hshort, hexs⟩).imp ?_
    rintro r d ⟨hr, hx⟩
    have h := hx.exchange hr []
    rwa [List.append_nil] at h
  · cases hexc with
    | cons h _ => exact h

/-- A factorization is grown from one without the last column, which insertion would not refuse. -/
theorem Factorizes.front {c : Vec ℝ} (hf : Factorizes n f (cs ++ [c])) :
    ∃ g : Factorization ℝ, Factorizes n g cs ∧ f = g.grown c ∧
      refusedShare * ‖euclid n c‖ < ‖residue (g.points n) (euclid n c)‖ := by
  have hcols : f.columns = cs.length + 1 := by rw [hf.columns_eq, List.length_append]; rfl
  have hc : c.length = n := hf.column_length c (List.mem_append_right _ List.mem_cons_self)
  obtain ⟨bs, q, hb, hbl⟩ := exists_concat hcols
  obtain ⟨us, r, hu, hul⟩ := exists_concat (hf.shaped.upper.trans hcols)
  obtain ⟨hg, hrl, ho, hlast⟩ := hf.front_parts hb hbl hu hul
  obtain ⟨r, a, rfl, hr⟩ := exists_concat hrl
  have ha : 0 < a := by
    have h := hlast.last_pos
    rwa [List.getLastD_concat] at h
  have hq : ‖euclid n q‖ = 1 := ho.1 _ (List.mem_append_right _ List.mem_cons_self)
  -- the products and the residue of an insertion are the last coefficients
  obtain ⟨hprod, hres⟩ : (bs.map (euclid n)).map (fun p => ⟪p, euclid n c⟫) = r ∧
      residue (bs.map (euclid n)) (euclid n c) = a • euclid n q := by
    rw [← hlast.combination]
    exact ho.residue_combine_concat (hr.trans ((List.length_map _).trans hbl).symm) a
  have hnorm : ‖residue (bs.map (euclid n)) (euclid n c)‖ = a := by
    rw [hres, norm_smul, hq, mul_one, Real.norm_of_nonneg ha.le]
  obtain ⟨h1, h2, h3, h4⟩ := hg.split_parts hc
  refine ⟨_, hg, Factorization.ext hf.rows ?_ ?_ ?_, ?_⟩
  · have hdiv : (split bs c).2.map (· / (split bs c).2.norm) = q := by
      have hql : q.length = n := hf.basis_length q (hb ▸ List.mem_append_right _ List.mem_cons_self)
      refine euclid_injective ((List.length_map _).trans h2) hql ?_
      rw [euclid_div, h3, h4]
      show ‖residue (bs.map (euclid n)) (euclid n c)‖⁻¹ •
        residue (bs.map (euclid n)) (euclid n c) = _
      rw [hnorm, hres, smul_smul, inv_mul_cancel₀ ha.ne', one_smul]
    exact hb.trans (congrArg (fun p => bs ++ [p]) hdiv.symm)
  · show f.upper = us ++ [(split bs c).1 ++ [(split bs c).2.norm]]
    rw [hu, h1, h3]
    show _ = us ++ [(bs.map (euclid n)).map (fun p => ⟪p, euclid n c⟫) ++
      [‖residue (bs.map (euclid n)) (euclid n c)‖]]
    rw [hprod, hnorm]
  · rw [hf.norms, List.map_append]
    rfl
  · show _ < ‖residue (bs.map (euclid n)) (euclid n c)‖
    rw [hnorm]
    have h := hlast.accepted
    rwa [List.getLastD_concat] at h

/-! ## The columns determine the factorization -/

/-- Inserting columns in two groups. -/
theorem insertAll_append (vs ws : List (Vec ℝ)) : ∀ {f g g' : Factorization ℝ} {i : Nat}
    {refused refused' : List Nat}, f.insertAll i vs = .ok (g, refused) →
      g.insertAll (i + vs.length) ws = .ok (g', refused') →
      f.insertAll i (vs ++ ws) = .ok (g', refused ++ refused') := by
  induction vs with
  | nil =>
    intro f g g' i refused refused' h h'
    obtain ⟨rfl, rfl⟩ := Prod.mk.inj (Except.ok.inj h)
    exact h'
  | cons v vs ih =>
    intro f g g' i refused refused' h h'
    rw [List.length_cons, show i + (vs.length + 1) = i + 1 + vs.length by omega] at h'
    obtain ⟨o, ho, h⟩ := bind_ok h
    rw [List.cons_append, insertAll, ho]
    cases o with
    | some k => exact ih h h'
    | none =>
      obtain ⟨⟨k, later⟩, hk, h⟩ := bind_ok h
      obtain ⟨rfl, rfl⟩ := Prod.mk.inj (Except.ok.inj h)
      show f.insertAll (i + 1) (vs ++ ws) >>= _ = _
      rw [ih hk h']
      rfl

/-- Refactorizing its columns refuses none of them and yields the factorization itself. -/
theorem Factorizes.rebuild_eq (hf : Factorizes n f cs) : f.rebuild cs = .ok (f, []) := by
  rw [rebuild, hf.rows]
  induction cs using List.reverseRecOn generalizing f with
  | nil => rw [hf.eq_empty]; rfl
  | append_singleton cs c ih =>
    -- the rebuild comes to the last column with the factorization of those before it
    obtain ⟨g, hg, rfl, hacc⟩ := hf.front
    have hins := (hg.insert_grown (hf.column_length c (List.mem_append_right _ List.mem_cons_self))
      hacc).1
    refine insertAll_append cs [c] (ih hg) ?_
    rw [insertAll, hins]
    rfl

/-- The basis spans what the columns span. -/
theorem Factorizes.spanned_points (hf : Factorizes n f cs) :
    spanned (f.points n) = spanned (cs.map (euclid n)) := by
  refine le_antisymm (spanned_le ?_) (spanned_le fun c hc => ?_)
  · induction cs using List.reverseRecOn generalizing f with
    | nil =>
      rw [hf.eq_empty]
      exact fun p hp => absurd hp List.not_mem_nil
    | append_singleton cs c ih =>
      obtain ⟨g, hg, rfl, -⟩ := hf.front
      have hc : c.length = n := hf.column_length c (List.mem_append_right _ List.mem_cons_self)
      have hsub : spanned (cs.map (euclid n)) ≤ spanned ((cs ++ [c]).map (euclid n)) :=
        spanned_le fun d hd => mem_spanned (by
          rw [List.map_append]
          exact List.mem_append_left _ hd)
      have hgs : spanned (g.points n) ≤ spanned ((cs ++ [c]).map (euclid n)) :=
        spanned_le fun p hp => hsub (ih hg p hp)
      intro p hp
      rw [points_grown, (hg.split_parts hc).2.2.2] at hp
      rcases List.mem_append.1 hp with hp | hp
      · exact hgs (mem_spanned hp)
      · -- the new basis vector is the last column less its components, scaled
        rw [List.mem_singleton.1 hp]
        refine Submodule.smul_mem _ _ ?_
        rw [← sub_sub_cancel (euclid n c) (residue (g.points n) (euclid n c))]
        refine Submodule.sub_mem _ (mem_spanned ?_) (hgs (sub_residue_mem _ _))
        exact List.mem_map_of_mem (List.mem_append_right _ List.mem_cons_self)
  · obtain ⟨j, hj, rfl⟩ := List.mem_iff_getElem.1 hc
    have h := (hf.expresses.get (hf.expresses.length_eq.symm ▸ hj) hj).combination
    rw [show (cs.map (euclid n))[j] = combine _ (f.points n) from h.symm]
    exact combine_mem _ fun q hq => mem_spanned hq

/-- Insertion refuses exactly the vectors that are no farther from the span of the columns than the
refused share of their length. -/
theorem Factorizes.insert_eq_none_iff_infDist (hf : Factorizes n f cs) {v : Vec ℝ}
    (hv : v.length = n) :
    f.insert v = .ok none ↔
      Metric.infDist (euclid n v) (spanned (cs.map (euclid n)) : Set (EuclideanSpace ℝ (Fin n))) ≤
        refusedShare * ‖euclid n v‖ := by
  rw [hf.insert_eq_none_iff hv, ← hf.spanned_points, infDist_spanned hf.orthonormal]

/-- A vector at right angles to some columns tells how far another one is from their span. -/
theorem dot_le_infDist {x v : Vec ℝ} (hx : x.length = n) (hunit : x.norm ≤ 1) (hv : v.length = n)
    (hcs : ∀ c ∈ cs, c.length = n ∧ x.dot c = 0) :
    x.dot v ≤ Metric.infDist (euclid n v)
      (spanned (cs.map (euclid n)) : Set (EuclideanSpace ℝ (Fin n))) := by
  rw [dot_eq_inner hx hv]
  refine le_infDist_spanned (by rwa [← norm_eq_norm hx]) (List.forall_mem_map.2 fun c hc => ?_) _
  obtain ⟨hlength, hright⟩ := hcs c hc
  rw [← dot_eq_inner hx hlength, hright]

/-- A column is taken in if it reaches in a direction that the other columns do not have. -/
theorem Factorizes.insert_along (hf : Factorizes n f cs) {x v : Vec ℝ} (hx : x.length = n)
    (hunit : x.norm ≤ 1) (hv : v.length = n) (hright : ∀ c ∈ cs, x.dot c = 0)
    (hfar : refusedShare * v.norm < x.dot v) :
    ∃ f', f.insert v = .ok (some f') ∧ Factorizes n f' (cs ++ [v]) := by
  refine (hf.insert_cases hv).resolve_left fun hrefused => ?_
  have hnear := (hf.insert_eq_none_iff_infDist hv).1 hrefused
  have hle := dot_le_infDist hx hunit hv fun c hc => ⟨hf.column_length c hc, hright c hc⟩
  rw [← norm_eq_norm hv] at hnear
  exact (hle.trans hnear).not_gt hfar

/-! ## What filters and rebuilds leave -/

/-- Inserting several columns leaves the columns that were not refused. -/
theorem Factorizes.insertAll (vs : List (Vec ℝ)) : ∀ {f : Factorization ℝ} {cs : List (Vec ℝ)}
    (i : Nat), Factorizes n f cs → (∀ v ∈ vs, v.length = n) →
      ∃ (f' : Factorization ℝ) (refused : List Nat),
        f.insertAll i vs = .ok (f', refused.map (i + ·)) ∧
        Factorizes n f' (cs ++ eraseAll vs refused.reverse) := by
  induction vs with
  | nil =>
    intro f cs i hf _
    refine ⟨f, [], rfl, ?_⟩
    rwa [show eraseAll ([] : List (Vec ℝ)) [].reverse = [] from rfl, List.append_nil]
  | cons v vs ih =>
    intro f cs i hf hl
    have hv := hl v List.mem_cons_self
    have hvs : ∀ w ∈ vs, w.length = n := fun w hw => hl w (List.mem_cons_of_mem _ hw)
    have hshift (refused : List Nat) :
        (refused.map (1 + ·)).map (i + ·) = refused.map (i + 1 + ·) := by
      rw [List.map_map]
      exact List.map_congr_left fun j _ => (Nat.add_assoc i 1 j).symm
    by_cases h : ‖residue (f.points n) (euclid n v)‖ ≤ refusedShare * ‖euclid n v‖
    · obtain ⟨f', refused, hf', hfac⟩ := ih (i + 1) hf hvs
      refine ⟨f', 0 :: refused.map (1 + ·), ?_, ?_⟩
      · rw [Factorization.insertAll, hf.insert_refused hv h, List.map_cons, hshift]
        show f.insertAll (i + 1) vs >>= _ = _
        rw [hf']
        rfl
      · rw [List.reverse_cons, ← List.map_reverse, eraseAll_append, eraseAll_cons]
        exact hfac
    · obtain ⟨hins, hg⟩ := hf.insert_grown hv (not_le.1 h)
      obtain ⟨f', refused, hf', hfac⟩ := ih (i + 1) hg hvs
      refine ⟨f', refused.map (1 + ·), ?_, ?_⟩
      · rw [Factorization.insertAll, hins, hshift]
        exact hf'
      · rw [← List.map_reverse, eraseAll_cons]
        rwa [List.append_assoc] at hfac

/-- A rebuild leaves the columns that were not refused. -/
theorem Factorizes.rebuild (hf : Factorizes n f cs) {vs : List (Vec ℝ)}
    (hl : ∀ v ∈ vs, v.length = n) :
    ∃ f' refused, f.rebuild vs = .ok (f', refused) ∧
      Factorizes n f' (eraseAll vs refused.reverse) := by
  obtain ⟨f', refused, h, hfac⟩ := (empty_factorizes n).insertAll vs 0 hl
  refine ⟨f', refused, ?_, hfac⟩
  rw [Factorization.rebuild, hf.rows, h, List.map_congr_left fun j _ => Nat.zero_add j,
    List.map_id']

end Factorization

open Factorization

theorem Filter.worse_eq_some {proportion : Nat → Option ℝ} {best : Option (Nat × ℝ)} {i j : Nat}
    {w : ℝ} (h : Filter.worse proportion best i = some (j, w)) :
    (j = i ∧ proportion i = some w) ∨ best = some (j, w) := by
  unfold Filter.worse at h
  split at h
  next => exact .inr h
  next hi =>
    obtain ⟨rfl, rfl⟩ := Prod.mk.inj (Option.some.inj h)
    exact .inl ⟨rfl, hi⟩
  next hi =>
    split at h
    next =>
      obtain ⟨rfl, rfl⟩ := Prod.mk.inj (Option.some.inj h)
      exact .inl ⟨rfl, hi⟩
    next => exact .inr h

/-- The worst position is one of the positions and comes with its proportion, or was so before. -/
theorem Filter.mem_of_foldl_worse {proportion : Nat → Option ℝ} {i : Nat} {w : ℝ}
    (positions : List Nat) : ∀ {best : Option (Nat × ℝ)},
    positions.foldl (Filter.worse proportion) best = some (i, w) →
      (i ∈ positions ∧ proportion i = some w) ∨ best = some (i, w) := by
  induction positions with
  | nil => intro best h; exact .inr h
  | cons j js ih =>
    intro best h
    rcases ih h with ⟨hi, hw⟩ | h
    · exact .inl ⟨List.mem_cons_of_mem _ hi, hw⟩
    · rcases Filter.worse_eq_some h with ⟨rfl, hw⟩ | h
      · exact .inl ⟨List.mem_cons_self, hw⟩
      · exact .inr h

theorem Filter.mostRedundant_eq_some {filter : Filter ℝ} {f : Factorization ℝ} {i : Nat}
    (h : filter.mostRedundant f = some i) :
    i < f.columns ∧ ∃ w, filter.shortfall f i = some w := by
  obtain ⟨⟨j, w⟩, hw, rfl⟩ := Option.map_eq_some_iff.1 h
  rcases Filter.mem_of_foldl_worse _ hw with ⟨hj, hw⟩ | h
  · exact ⟨List.mem_range.1 hj, w, hw⟩
  · cases h

theorem Filter.mostRedundant_lt {filter : Filter ℝ} {f : Factorization ℝ} {i : Nat}
    (h : filter.mostRedundant f = some i) : i < f.columns :=
  (Filter.mostRedundant_eq_some h).1

/-- A filter leaves the columns that it does not remove. -/
theorem Filter.removeRedundant_factorizes {n : Nat} (filter : Filter ℝ) : ∀ (fuel : Nat)
    {f : Factorization ℝ} {cs : List (Vec ℝ)}, Factorizes n f cs →
      ∃ f' removed, filter.removeRedundant fuel f = .ok (f', removed) ∧
        Factorizes n f' (eraseAll cs removed) := by
  intro fuel
  induction fuel with
  | zero => intro f cs hf; exact ⟨f, [], rfl, hf⟩
  | succ fuel ih =>
    intro f cs hf
    cases hm : filter.mostRedundant f with
    | none =>
      refine ⟨f, [], ?_, hf⟩
      rw [removeRedundant, hm]
    | some i =>
      obtain ⟨g, hg, hfg⟩ := hf.delete (Filter.mostRedundant_lt hm)
      obtain ⟨f', removed, hf', hff⟩ := ih hfg
      refine ⟨f', i :: removed, ?_, hff⟩
      rw [removeRedundant, hm]
      show f.delete i >>= _ = _
      rw [hg]
      show filter.removeRedundant fuel g >>= _ = _
      rw [hf']
      rfl

theorem Filter.apply_factorizes {n : Nat} {f : Factorization ℝ} {cs : List (Vec ℝ)}
    (filter : Filter ℝ) (hf : Factorizes n f cs) :
    ∃ f' removed, filter.apply f = .ok (f', removed) ∧ Factorizes n f' (eraseAll cs removed) :=
  filter.removeRedundant_factorizes f.columns hf

end Cosimulation.Acceleration

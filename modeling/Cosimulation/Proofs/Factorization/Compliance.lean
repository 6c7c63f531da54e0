import Cosimulation.Proofs.Factorization.Refactorization

/-!
# Columns that reach their threshold

A filter is satisfied with a factorization when the diagonal coefficient of every column reaches the
threshold that the filter sets for it (`Filter.Satisfied`). What `Filter.apply` leaves is such a
factorization: it stops where no column falls short, and it does stop, since every removal shortens
the factorization (`Filter.apply_satisfied`).

In exact arithmetic the filter stays satisfied when a column is deleted (`Filter.Satisfied.delete`).
The diagonal coefficient of a column is its distance from the span of the columns before it
(`Factorizes.diagonal_eq`), which can only grow when there are fewer of them; and what the threshold
is relative to, the norm of the column or of all columns (`Factorizes.totalNorm_sq`), does not grow.
-/

namespace Cosimulation.Acceleration

open Factorization
open scoped RealInnerProductSpace

/-- The diagonal coefficient of every column reaches its threshold. -/
def Filter.Satisfied (filter : Filter ℝ) (f : Factorization ℝ) : Prop :=
  ∀ i < f.columns, ∀ t, filter.threshold f i = some t → t ≤ |f.diagonal i|

namespace Filter

variable {filter : Filter ℝ} {f f' : Factorization ℝ}

theorem satisfied_empty (filter : Filter ℝ) (rows : Nat) : filter.Satisfied (.empty rows) :=
  fun _ hi => absurd hi (Nat.not_lt_zero _)

/-! ## What the filter leaves -/

/-- A column that does not fall short reaches its threshold. -/
theorem le_of_shortfall {i : Nat} (h : filter.shortfall f i = none) {t : ℝ}
    (ht : filter.threshold f i = some t) : t ≤ |f.diagonal i| := by
  rw [shortfall, ht] at h
  dsimp only at h
  split at h
  next hneg => exact hneg.trans (abs_nonneg _)
  next hpos =>
    split at h
    next => cases h
    next hratio => exact (one_le_div (not_le.1 hpos)).1 (not_lt.1 hratio)

theorem worse_eq_none {proportion : Nat → Option ℝ} {best : Option (Nat × ℝ)} {i : Nat}
    (h : worse proportion best i = none) : best = none ∧ proportion i = none := by
  unfold worse at h
  split at h
  next hi => exact ⟨h, hi⟩
  next => cases h
  next => split at h <;> cases h

/-- Where there is no worst position, none of them falls short. -/
theorem foldl_worse_eq_none {proportion : Nat → Option ℝ} : ∀ {positions : List Nat}
    {best : Option (Nat × ℝ)}, positions.foldl (worse proportion) best = none →
      best = none ∧ ∀ i ∈ positions, proportion i = none := by
  intro positions
  induction positions with
  | nil => exact fun h => ⟨h, fun _ hi => absurd hi List.not_mem_nil⟩
  | cons j js ih =>
    intro best h
    obtain ⟨hworse, hjs⟩ := ih h
    obtain ⟨hbest, hj⟩ := worse_eq_none hworse
    exact ⟨hbest, List.forall_mem_cons.2 ⟨hj, hjs⟩⟩

theorem satisfied_of_mostRedundant (h : filter.mostRedundant f = none) : filter.Satisfied f := by
  intro i hi t ht
  obtain ⟨-, hall⟩ := foldl_worse_eq_none (Option.map_eq_none_iff.1 h)
  exact le_of_shortfall (hall i (List.mem_range.2 hi)) ht

/-- With a removal for each column to spend, the filter ends satisfied. -/
theorem removeRedundant_satisfied : ∀ {fuel : Nat} {f f' : Factorization ℝ} {removed : List Nat},
    f.Shaped → f.columns ≤ fuel → filter.removeRedundant fuel f = .ok (f', removed) →
      filter.Satisfied f' := by
  intro fuel
  induction fuel with
  | zero =>
    intro f f' removed _ hle h
    obtain ⟨rfl, -⟩ := Prod.mk.inj (Except.ok.inj h)
    exact fun i hi => absurd (Nat.lt_of_lt_of_le hi hle) (Nat.not_lt_zero i)
  | succ fuel ih =>
    intro f f' removed hs hle h
    rw [removeRedundant] at h
    split at h
    next hm =>
      obtain ⟨rfl, -⟩ := Prod.mk.inj (Except.ok.inj h)
      exact satisfied_of_mostRedundant hm
    next i hm =>
      obtain ⟨g, hg, h⟩ := bind_ok h
      obtain ⟨⟨k, later⟩, hk, h⟩ := bind_ok h
      obtain ⟨rfl, -⟩ := Prod.mk.inj (Except.ok.inj h)
      obtain ⟨hshaped, -, hcolumns, -⟩ := delete_shaped hs hg
      exact ih hshaped (by omega) hk

theorem apply_satisfied {removed : List Nat} (hs : f.Shaped)
    (h : filter.apply f = .ok (f', removed)) : filter.Satisfied f' :=
  removeRedundant_satisfied hs le_rfl h

end Filter

/-! ## Diagonal and norms in exact arithmetic -/

namespace Factorization

variable {n : Nat} {f f' : Factorization ℝ} {cs : List (Vec ℝ)}

/-- The diagonal coefficient of a column is its distance from the span of the columns before it. -/
theorem Factorizes.diagonal_eq (hf : Factorizes n f cs) : ∀ {i : Nat} (hi : i < cs.length),
    f.diagonal i = Metric.infDist (euclid n cs[i])
      (spanned ((cs.take i).map (euclid n)) : Set (EuclideanSpace ℝ (Fin n))) := by
  induction cs using List.reverseRecOn generalizing f with
  | nil => exact fun hi => absurd hi (Nat.not_lt_zero _)
  | append_singleton cs c ih =>
    intro i hi
    obtain ⟨g, hg, rfl, -⟩ := hf.front
    have hc : c.length = n := hf.column_length c (List.mem_append_right _ List.mem_cons_self)
    have hupper : g.upper.length = cs.length := hg.shaped.upper.trans hg.columns_eq
    rw [List.length_append, List.length_singleton] at hi
    by_cases hlt : i < cs.length
    · -- the columns before the last are those of the smaller factorization
      have hdiag : (g.grown c).diagonal i = g.diagonal i := by
        show (((g.upper ++ [_])[i]?.getD [])[i]?).getD 0 = ((g.upper[i]?.getD [])[i]?).getD 0
        rw [List.getElem?_append_left (hupper.symm ▸ hlt)]
      rw [hdiag, ih hg hlt, List.getElem_append_left hlt, List.take_append_of_le_length hlt.le]
    · obtain rfl : i = cs.length := by omega
      obtain ⟨hproducts, -, hnorm, -⟩ := hg.split_parts hc
      have hlen : (split g.basis c).1.length = cs.length := by
        rw [hproducts, List.length_map, length_points, hg.columns_eq]
      have hdiag : (g.grown c).diagonal cs.length = (split g.basis c).2.norm := by
        show (((g.upper ++ [(split g.basis c).1 ++ [_]])[cs.length]?.getD [])[cs.length]?).getD 0 =
          _
        rw [← hupper, List.getElem?_concat_length, Option.getD_some, hupper, ← hlen,
          List.getElem?_concat_length, Option.getD_some]
      rw [hdiag, hnorm, List.getElem_concat_length rfl, List.take_left, ← hg.spanned_points,
        infDist_spanned hg.orthonormal]

/-- The diagonal coefficient of a column is at least what the column has in a direction that the
columns before it do not have. -/
theorem Factorizes.le_diagonal (hf : Factorizes n f cs) {i : Nat} (hi : i < cs.length) {x : Vec ℝ}
    (hx : x.length = n) (hunit : x.norm ≤ 1) (hright : ∀ c ∈ cs.take i, x.dot c = 0) :
    x.dot cs[i] ≤ f.diagonal i := by
  rw [hf.diagonal_eq hi]
  exact dot_le_infDist hx hunit (hf.column_length _ (List.getElem_mem hi)) fun c hc =>
    ⟨hf.column_length c (List.mem_of_mem_take hc), hright c hc⟩

/-- All coefficients together are as long as all columns together. -/
theorem Factorizes.totalNorm_sq (hf : Factorizes n f cs) :
    f.totalNorm ^ 2 = (cs.map fun c => ‖euclid n c‖ ^ 2).sum := by
  have hlong : ∀ r ∈ f.upper, r.length ≤ (f.points n).length := by
    intro r hr
    obtain ⟨j, hj, rfl⟩ := List.mem_iff_getElem.1 hr
    rw [hf.shaped.stairs.length_getElem j hj, length_points, ← hf.shaped.upper]
    omega
  have hcolumns : List.Forall₂ (fun r c => (r.map (· ^ 2)).sum = ‖c‖ ^ 2) f.upper
      (cs.map (euclid n)) :=
    ((List.forall₂_and_left _ _).2 ⟨hlong, hf.expresses⟩).imp fun r c ⟨hr, hx⟩ => by
      rw [← hx.combination, hf.orthonormal.norm_sq_combine hr]
  have hsums := List.forall₂_map_left_iff.2 (List.forall₂_map_right_iff.2 hcolumns)
  rw [List.forall₂_eq_eq_eq, List.map_map] at hsums
  rw [totalNorm, norm_sq_eq_sum, List.map_flatten, List.sum_flatten, List.map_map]
  exact congrArg List.sum hsums

end Factorization

namespace Filter

variable {filter : Filter ℝ} {n : Nat} {f f' : Factorization ℝ} {cs : List (Vec ℝ)} {k : Nat}

/-- A column that outlives an erasure, and the columns before it, were there before. -/
theorem exists_getElem_eraseIdx {β : Type} {xs : List β} {k i : Nat}
    (hi : i < (xs.eraseIdx k).length) : ∃ (j : Nat) (hj : j < xs.length),
      (xs.eraseIdx k)[i] = xs[j] ∧ ∀ x ∈ (xs.eraseIdx k).take i, x ∈ xs.take j := by
  by_cases hik : i < k
  · have hj : i < xs.length := (List.eraseIdx_sublist xs k).length_le.trans_lt' hi
    refine ⟨i, hj, List.getElem_eraseIdx_of_lt hi hik, fun x hx => ?_⟩
    rwa [List.take_eraseIdx_eq_take_of_le _ _ _ hik.le] at hx
  · have hk : k ≤ i := Nat.not_lt.1 hik
    have hlen : (xs.eraseIdx k).length + 1 = xs.length := by
      by_cases hkx : k < xs.length
      · exact List.length_eraseIdx_add_one hkx
      · rw [List.eraseIdx_of_length_le (Nat.not_lt.1 hkx)] at hi
        exact absurd (Nat.lt_of_le_of_lt hk hi) hkx
    refine ⟨i + 1, by omega, List.getElem_eraseIdx_of_ge hi hk, fun x hx => ?_⟩
    obtain ⟨m, hm, rfl⟩ := List.mem_take_iff_getElem.1 hx
    rw [List.getElem_eraseIdx]
    split
    next => exact List.mem_take_iff_getElem.2 ⟨m, by omega, rfl⟩
    next => exact List.mem_take_iff_getElem.2 ⟨m + 1, by omega, rfl⟩

/-- A limit below zero demands nothing. -/
theorem threshold_nonpos (hf : Factorizes n f cs) (hlimit : filter.limit ≤ 0) {i : Nat} {t : ℝ}
    (ht : filter.threshold f i = some t) : t ≤ 0 := by
  unfold threshold at ht
  cases hkind : filter.kind with
  | none =>
    rw [hkind] at ht
    cases ht
  | qr1 =>
    rw [hkind] at ht
    obtain rfl := Option.some.inj ht
    exact mul_nonpos_of_nonpos_of_nonneg hlimit (Real.sqrt_nonneg _)
  | qr2 =>
    rw [hkind] at ht
    obtain rfl := Option.some.inj ht
    refine mul_nonpos_of_nonpos_of_nonneg hlimit ?_
    rw [columnNorm, hf.norms, List.getElem?_map]
    cases cs[i]? with
    | none => exact le_rfl
    | some c => exact Real.sqrt_nonneg _

/-- What a column has to reach does not grow when another one is deleted. -/
theorem threshold_eraseIdx (hf : Factorizes n f cs) (hf' : Factorizes n f' (cs.eraseIdx k))
    {i j : Nat} (hi : i < (cs.eraseIdx k).length) (hj : j < cs.length)
    (hij : (cs.eraseIdx k)[i] = cs[j]) {t : ℝ} (ht : filter.threshold f' i = some t)
    (hpos : 0 < filter.limit) : ∃ t', filter.threshold f j = some t' ∧ t ≤ t' := by
  unfold threshold at ht ⊢
  cases hkind : filter.kind with
  | none =>
    rw [hkind] at ht
    cases ht
  | qr1 =>
    rw [hkind] at ht
    obtain rfl := Option.some.inj ht
    refine ⟨_, rfl, mul_le_mul_of_nonneg_left ?_ hpos.le⟩
    refine le_of_sq_le_sq ?_ (Real.sqrt_nonneg _)
    rw [hf.totalNorm_sq, hf'.totalNorm_sq]
    exact ((List.eraseIdx_sublist cs k).map _).sum_le_sum
      (List.forall_mem_map.2 fun c _ => sq_nonneg _)
  | qr2 =>
    rw [hkind] at ht
    obtain rfl := Option.some.inj ht
    refine ⟨_, rfl, le_of_eq ?_⟩
    rw [columnNorm, columnNorm, hf.norms, hf'.norms, List.getElem?_map, List.getElem?_map,
      List.getElem?_eq_getElem hi, List.getElem?_eq_getElem hj, hij]

/-- The distance of a column from those before it does not shrink when one of them is deleted. -/
theorem diagonal_eraseIdx (hf : Factorizes n f cs) (hf' : Factorizes n f' (cs.eraseIdx k))
    {i j : Nat} (hi : i < (cs.eraseIdx k).length) (hj : j < cs.length)
    (hij : (cs.eraseIdx k)[i] = cs[j]) (hbefore : ∀ c ∈ (cs.eraseIdx k).take i, c ∈ cs.take j) :
    f.diagonal j ≤ f'.diagonal i := by
  rw [hf.diagonal_eq hj, hf'.diagonal_eq hi, hij]
  refine Metric.infDist_le_infDist_of_subset (spanned_le fun x hx => ?_) ⟨0, Submodule.zero_mem _⟩
  obtain ⟨c, hc, rfl⟩ := List.mem_map.1 hx
  exact mem_spanned (List.mem_map_of_mem (hbefore c hc))

/-- A column that reaches its threshold does so all the more without another one. -/
theorem le_diagonal_eraseIdx (hf : Factorizes n f cs) (hf' : Factorizes n f' (cs.eraseIdx k))
    {i j : Nat} (hi : i < (cs.eraseIdx k).length) (hj : j < cs.length)
    (hij : (cs.eraseIdx k)[i] = cs[j]) (hbefore : ∀ c ∈ (cs.eraseIdx k).take i, c ∈ cs.take j)
    (hreached : ∀ t, filter.threshold f j = some t → t ≤ |f.diagonal j|) {t : ℝ}
    (ht : filter.threshold f' i = some t) : t ≤ |f'.diagonal i| := by
  rcases le_or_gt filter.limit 0 with hneg | hpos
  · exact (threshold_nonpos hf' hneg ht).trans (abs_nonneg _)
  obtain ⟨t', ht', hle⟩ := threshold_eraseIdx hf hf' hi hj hij ht hpos
  calc t ≤ t' := hle
    _ ≤ |f.diagonal j| := hreached t' ht'
    _ = f.diagonal j := abs_of_nonneg (hf.diagonal_eq hj ▸ Metric.infDist_nonneg)
    _ ≤ f'.diagonal i := diagonal_eraseIdx hf hf' hi hj hij hbefore
    _ ≤ |f'.diagonal i| := le_abs_self _

/-- Without one column the others reach their thresholds all the more. -/
theorem Satisfied.delete (h : filter.Satisfied f) (hf : Factorizes n f cs)
    (hf' : Factorizes n f' (cs.eraseIdx k)) : filter.Satisfied f' := by
  intro i hi t ht
  rw [hf'.columns_eq] at hi
  obtain ⟨j, hj, hij, hbefore⟩ := exists_getElem_eraseIdx hi
  exact le_diagonal_eraseIdx hf hf' hi hj hij hbefore (h j (hf.columns_eq.symm ▸ hj)) ht

end Filter

end Cosimulation.Acceleration

import Cosimulation.Proofs.Factorization.Compliance
import Cosimulation.Proofs.Factorization.NormalEquations

/-!
# What a filter removes, and what it leaves

A filter names the columns it removes by their positions, each counted in what is left by then, and
whoever keeps a list beside the factorization removes the same positions from it, one by one. The
positions that survive this, counted in the columns as they were before the call, are the
`survivors`.

`run_filtered` is about every factorization that edits leave, in exact arithmetic, and says in
`Filtered` what there is to say about the call: all columns left meet the limit, they are the
survivors in order, no column that met the limit is missing, and nothing is left to do for a second
call.

A single removal does not harm a column that meets the limit: its distance from the span of the
columns before it does not shrink, and the norm it is compared with does not grow
(`Filter.le_diagonal_eraseIdx`). So it meets the limit at every later removal, at whatever position
it stands by then, and a column that is removed does not meet the limit
(`Filter.not_met_of_mostRedundant`). `removeRedundant_keeps` is the induction on the removals.
-/

namespace Cosimulation.Acceleration

open Factorization

namespace Filter

variable {filter : Filter ℝ} {n : Nat} {f f' : Factorization ℝ} {cs : List (Vec ℝ)}

/-- Column `i` meets the limit of the filter. -/
def Met (filter : Filter ℝ) (f : Factorization ℝ) (i : Nat) : Prop :=
  match filter.kind with
  | .none => True
  | .qr1 => filter.limit * f.totalNorm ≤ |f.diagonal i|
  | .qr2 => filter.limit * f.columnNorm i ≤ |f.diagonal i|

/-- The positions, counted in `columns` columns, that are left when some are removed. -/
def survivors (columns : Nat) (removed : List Nat) : List Nat :=
  eraseAll (List.range columns) removed

/-- The call of a filter on a factorization of the columns `cs` leaves `f'` and removes the
positions `removed`. -/
structure Filtered (filter : Filter ℝ) (n : Nat) (f : Factorization ℝ) (cs : List (Vec ℝ))
    (f' : Factorization ℝ) (removed : List Nat) : Prop where
  applied : filter.apply f = .ok (f', removed)
  met : ∀ i < f'.columns, filter.Met f' i
  count : f'.columns + removed.length = f.columns
  agrees : Agrees n f' (eraseAll cs removed)
  columns : (survivors f.columns removed).map (fun j => cs[j]?.getD []) = eraseAll cs removed
  /-- What met the limit stays. -/
  kept : ∀ j < f.columns, filter.Met f j → j ∈ survivors f.columns removed
  /-- Compared with its own norm, the first column has all of it on the diagonal. -/
  first : filter.kind = .qr2 → filter.limit ≤ 1 → 0 < f.columns →
    0 ∈ survivors f.columns removed ∧ 0 < f'.columns
  again : filter.apply f' = .ok (f', [])

theorem met_iff {i : Nat} :
    filter.Met f i ↔ ∀ t, filter.threshold f i = some t → t ≤ |f.diagonal i| := by
  unfold Met threshold
  cases filter.kind with
  | none => exact ⟨fun _ _ ht => (Option.some_ne_none _ ht.symm).elim, fun _ => True.intro⟩
  | qr1 => exact ⟨fun h _ ht => Option.some.inj ht ▸ h, fun h => h _ rfl⟩
  | qr2 => exact ⟨fun h _ ht => Option.some.inj ht ▸ h, fun h => h _ rfl⟩

theorem satisfied_iff : filter.Satisfied f ↔ ∀ i < f.columns, filter.Met f i :=
  forall₂_congr fun _ _ => met_iff.symm

/-! ## The column that is removed -/

theorem not_met_of_mostRedundant {i : Nat} (h : filter.mostRedundant f = some i) :
    ¬ filter.Met f i := by
  obtain ⟨-, w, hshort⟩ := mostRedundant_eq_some h
  intro hmet
  rw [shortfall] at hshort
  split at hshort
  next => cases hshort
  next t ht =>
    dsimp only at hshort
    split at hshort
    next => cases hshort
    next hpos =>
      split at hshort
      next hratio =>
        exact (met_iff.1 hmet t ht).not_gt ((div_lt_one (not_le.1 hpos)).1 hratio)
      next => cases hshort

/-- A factorization whose columns all meet the limit is left as it is. -/
theorem apply_of_satisfied (h : filter.Satisfied f) : filter.apply f = .ok (f, []) := by
  have hnone : filter.mostRedundant f = none := by
    by_contra hne
    obtain ⟨i, hi⟩ := Option.ne_none_iff_exists'.1 hne
    exact not_met_of_mostRedundant hi (satisfied_iff.1 h i (mostRedundant_lt hi))
  rw [apply]
  cases f.columns with
  | zero => rfl
  | succ columns => rw [removeRedundant, hnone]

/-! ## The columns that stay -/

/-- An entry that is not erased has one new position, in all lists of this length, and nothing new
comes before it. -/
theorem exists_eraseIdx_of_ne {j k : Nat} (hjk : j ≠ k) : ∃ i, ∀ {β : Type} (xs : List β),
    (xs.eraseIdx k)[i]? = xs[j]? ∧ ∀ x ∈ (xs.eraseIdx k).take i, x ∈ xs.take j := by
  rcases Nat.lt_or_gt_of_ne hjk with hlt | hgt
  · refine ⟨j, fun xs => ⟨List.getElem?_eraseIdx_of_lt hlt, fun x hx => ?_⟩⟩
    rwa [List.take_eraseIdx_eq_take_of_le _ _ _ hlt.le] at hx
  · obtain ⟨i, rfl⟩ := Nat.exists_eq_add_of_lt hgt
    refine ⟨k + i, fun xs => ⟨List.getElem?_eraseIdx_of_ge (Nat.le_add_right k i), fun x hx => ?_⟩⟩
    obtain ⟨m, hm, rfl⟩ := List.mem_take_iff_getElem.1 hx
    have hlen := List.length_eraseIdx_le xs k
    rw [List.getElem_eraseIdx]
    split
    next => exact List.mem_take_iff_getElem.2 ⟨m, by omega, rfl⟩
    next hmk =>
      have hm' : m + 1 < xs.length := by
        have := List.length_eraseIdx_add_one (show k < xs.length by omega)
        omega
      exact List.mem_take_iff_getElem.2 ⟨m + 1, by omega, rfl⟩

/-- A column that meets the limit does so after every removal, and stays. The list `ks` names the
columns. -/
theorem removeRedundant_keeps {β : Type} : ∀ {fuel : Nat} {f f' : Factorization ℝ}
    {cs : List (Vec ℝ)} {ks : List β} {removed : List Nat} {j : Nat} {key : β},
    Factorizes n f cs → filter.removeRedundant fuel f = .ok (f', removed) → j < f.columns →
      filter.Met f j → ks[j]? = some key → key ∈ eraseAll ks removed := by
  intro fuel
  induction fuel with
  | zero =>
    intro f f' cs ks removed j key _ h _ _ hkey
    obtain ⟨-, rfl⟩ := Prod.mk.inj (Except.ok.inj h)
    exact List.mem_of_getElem? hkey
  | succ fuel ih =>
    intro f f' cs ks removed j key hf h hj hmet hkey
    rw [removeRedundant] at h
    split at h
    next =>
      obtain ⟨-, rfl⟩ := Prod.mk.inj (Except.ok.inj h)
      exact List.mem_of_getElem? hkey
    next k hk =>
      obtain ⟨g, hg, h⟩ := bind_ok h
      obtain ⟨⟨f₁, later⟩, hlater, h⟩ := bind_ok h
      obtain ⟨-, rfl⟩ := Prod.mk.inj (Except.ok.inj h)
      obtain ⟨g', hg', hfg⟩ := hf.delete (mostRedundant_lt hk)
      obtain rfl := Except.ok.inj (hg.symm.trans hg')
      have hjk : j ≠ k := fun hjk => not_met_of_mostRedundant hk (hjk ▸ hmet)
      -- the position moves alike in the columns and in the list of their names
      obtain ⟨i, hi⟩ := exists_eraseIdx_of_ne hjk
      rw [hf.columns_eq] at hj
      have hsame := (hi cs).1.trans (List.getElem?_eq_getElem hj)
      obtain ⟨hi', hij⟩ := List.getElem?_eq_some_iff.1 hsame
      show key ∈ eraseAll (ks.eraseIdx k) later
      refine ih hfg hlater (hfg.columns_eq.symm ▸ hi') ?_ ((hi ks).1.trans hkey)
      exact met_iff.2 fun t ht =>
        le_diagonal_eraseIdx hf hfg hi' hj hij (hi cs).2 (met_iff.1 hmet) ht

/-- With all of its norm on the diagonal, the first column meets every limit up to one. -/
theorem met_first (hf : Factorizes n f cs) (hkind : filter.kind = .qr2) (hlimit : filter.limit ≤ 1)
    (hcolumns : 0 < f.columns) : filter.Met f 0 := by
  rw [hf.columns_eq] at hcolumns
  have hdiagonal : f.diagonal 0 = ‖euclid n cs[0]‖ := by
    have hspan : spanned ([] : List (EuclideanSpace ℝ (Fin n))) = ⊥ :=
      le_bot_iff.1 (spanned_le fun _ hq => absurd hq List.not_mem_nil)
    rw [hf.diagonal_eq hcolumns, List.take_zero, List.map_nil, hspan, Submodule.bot_coe,
      Metric.infDist_singleton, dist_zero_right]
  have hnorm : f.columnNorm 0 = ‖euclid n cs[0]‖ := hf.agrees.norms 0 hcolumns
  rw [Met, hkind]
  show filter.limit * f.columnNorm 0 ≤ |f.diagonal 0|
  rw [hdiagonal, hnorm, abs_of_nonneg (norm_nonneg _)]
  exact mul_le_of_le_one_left (norm_nonneg _) hlimit

/-- A column meets a limit that it reaches in a direction that the columns before it do not have. -/
theorem met_along (hf : Factorizes n f cs) (hkind : filter.kind = .qr2) {i : Nat}
    (hi : i < cs.length) {x : Vec ℝ} (hx : x.length = n) (hunit : x.norm ≤ 1)
    (hright : ∀ c ∈ cs.take i, x.dot c = 0) (hfar : filter.limit * Vec.norm cs[i] ≤ x.dot cs[i]) :
    filter.Met f i := by
  have hnorm : f.columnNorm i = Vec.norm cs[i] :=
    (hf.agrees.norms i hi).trans (norm_eq_norm (hf.column_length _ (List.getElem_mem hi))).symm
  rw [Met, hkind]
  show filter.limit * f.columnNorm i ≤ |f.diagonal i|
  rw [hnorm]
  exact hfar.trans ((hf.le_diagonal hi hx hunit hright).trans (le_abs_self _))

theorem eraseAll_map {β γ : Type} (g : β → γ) (positions : List Nat) : ∀ xs : List β,
    (eraseAll xs positions).map g = eraseAll (xs.map g) positions := by
  induction positions with
  | nil => exact fun _ => rfl
  | cons i is ih =>
    intro xs
    show (eraseAll (xs.eraseIdx i) is).map g = eraseAll ((xs.map g).eraseIdx i) is
    rw [ih, List.eraseIdx_map]

/-- What the survivors were before the call are the columns after it. -/
theorem survivors_columns (hf : Factorizes n f cs) (removed : List Nat) :
    (survivors f.columns removed).map (fun j => cs[j]?.getD []) = eraseAll cs removed := by
  rw [survivors, eraseAll_map, hf.columns_eq]
  refine congrArg (eraseAll · removed) (List.ext_getElem (by simp) fun i hi hi' => ?_)
  rw [List.getElem_map, List.getElem_range, List.getElem?_eq_getElem hi', Option.getD_some]

end Filter

namespace Factorization

variable {filter : Filter ℝ} {n : Nat} {f : Factorization ℝ} {cs : List (Vec ℝ)}

theorem Factorizes.filtered (hf : Factorizes n f cs) (filter : Filter ℝ) :
    ∃ f' removed, filter.Filtered n f cs f' removed := by
  obtain ⟨f', removed, happlied, hf'⟩ := filter.apply_factorizes hf
  obtain ⟨-, -, hcount⟩ := Filter.apply_shaped hf.shaped happlied
  have hsatisfied := Filter.apply_satisfied hf.shaped happlied
  have hcolumns := Filter.survivors_columns hf removed
  have hkept : ∀ j < f.columns, filter.Met f j → j ∈ Filter.survivors f.columns removed :=
    fun j hj hmet => Filter.removeRedundant_keeps hf happlied hj hmet (List.getElem?_range hj)
  refine ⟨f', removed, happlied, Filter.satisfied_iff.1 hsatisfied, hcount, hf'.agrees, hcolumns,
    hkept, fun hkind hlimit hpos => ?_, Filter.apply_of_satisfied hsatisfied⟩
  have hfirst := hkept 0 hpos (Filter.met_first hf hkind hlimit hpos)
  have hlength := congrArg List.length hcolumns
  rw [List.length_map, ← hf'.columns_eq] at hlength
  exact ⟨hfirst, hlength ▸ List.length_pos_of_mem hfirst⟩

/-- Whatever the edits, a filter removes from what they leave only columns that do not meet the
limit, and leaves only columns that do. -/
theorem run_filtered (n : Nat) (es : List (Edit ℝ)) (l : Ledger ℝ)
    (h : (Ledger.empty n).run es = .ok l) (filter : Filter ℝ) :
    ∃ f' removed, filter.Filtered n l.factorization l.columns f' removed :=
  (factorizes_of_run es (empty_factorizes n) h).filtered filter

theorem norm_diagonal : Vec.norm [(1 : ℝ), 1] = √2 :=
  congrArg Real.sqrt (by norm_num)

/-- The axis vector and the diagonal vector are both taken in. -/
theorem run_diagonal : ∃ f : Factorization ℝ,
    (Ledger.empty 2).run [.insert [1, 0], .insert [1, 1]] = .ok ⟨f, [[1, 0], [1, 1]]⟩ ∧
      Factorizes 2 f [[1, 0], [1, 1]] := by
  have hshare := refusedShare_lt
  have hx : Vec.norm [(1 : ℝ), 0] = 1 := norm_of_dot zero_le_one (by simp)
  have hy : Vec.norm [(0 : ℝ), 1] = 1 := norm_of_dot zero_le_one (by simp)
  have htwo : √2 ≤ (2 : ℝ) := Real.sqrt_le_iff.2 (by norm_num)
  obtain ⟨g, hg, hgrown⟩ := (empty_factorizes 2).insert_along (x := [1, 0]) (v := [1, 0]) rfl hx.le
    rfl (fun _ hc => absurd hc List.not_mem_nil) (by norm_num [hx]; linarith)
  obtain ⟨f, hf, hfactorizes⟩ := hgrown.insert_along (x := [0, 1]) (v := [1, 1]) rfl hy.le rfl
    (by simp) (by norm_num [norm_diagonal]; nlinarith [Real.sqrt_nonneg (2 : ℝ)])
  refine ⟨f, ?_, hfactorizes⟩
  simp only [Ledger.run, Ledger.perform, Ledger.empty, hg, hf, ok_bind]
  rfl

/-- A filter that leaves both of them has found that the diagonal vector, which is no farther from
the axis than one, meets its limit. -/
theorem Factorizes.not_filtered_diagonal {f f' : Factorization ℝ}
    (hf : Factorizes 2 f [[1, 0], [1, 1]]) :
    ¬ Filter.Filtered ⟨.qr2, (1 : ℝ)⟩ 2 f [[1, 0], [1, 1]] f' [] := by
  intro hfiltered
  have hagrees : Agrees 2 f' [[1, 0], [1, 1]] := hfiltered.agrees
  obtain rfl : f' = f := by
    have h := hf.agrees.rebuild
    rw [Factorization.rebuild, hf.rows, ← hagrees.rows] at h
    exact (Prod.mk.inj (Except.ok.inj (hagrees.rebuild.symm.trans h))).1
  have hcolumns : f'.columns = 2 := hf.columns_eq
  have hmet : 1 * f'.columnNorm 1 ≤ |f'.diagonal 1| := hfiltered.met 1 (by omega)
  have hdiagonal : |f'.diagonal 1| ≤ 1 := by
    rw [hf.diagonal_eq Nat.one_lt_two, abs_of_nonneg Metric.infDist_nonneg]
    refine (Metric.infDist_le_dist_of_mem (mem_spanned List.mem_cons_self)).trans_eq ?_
    rw [EuclideanSpace.dist_eq, Fin.sum_univ_two]
    show √(dist (1 : ℝ) 1 ^ 2 + dist (1 : ℝ) 0 ^ 2) = 1
    norm_num
  have hnorm : f'.columnNorm 1 = √2 :=
    (hf.agrees.norms 1 Nat.one_lt_two).trans ((norm_eq_norm rfl).symm.trans norm_diagonal)
  rw [hnorm, one_mul] at hmet
  exact (hmet.trans hdiagonal).not_gt Real.one_lt_sqrt_two

/-- The diagonal vector after the axis vector contributes less than its own norm: a limit of one
removes it. -/
theorem run_filtered_diagonal : ∃ l f', (Ledger.empty 2).run [.insert [1, 0], .insert [1, 1]] =
    .ok l ∧ Filter.Filtered ⟨.qr2, (1 : ℝ)⟩ 2 l.factorization l.columns f' [1] := by
  obtain ⟨f, hrun, hfactorizes⟩ := run_diagonal
  obtain ⟨f', removed, hfiltered⟩ := run_filtered 2 _ _ hrun ⟨.qr2, 1⟩
  refine ⟨_, f', hrun, ?_⟩
  have hcolumns : f.columns = 2 := hfactorizes.columns_eq
  obtain ⟨hfirst, hpos⟩ := hfiltered.first rfl le_rfl (hcolumns.symm ▸ Nat.two_pos)
  have hcount := hfiltered.count
  have hagrees := hfiltered.agrees
  rw [hcolumns] at hfirst hcount
  -- the first column stays, and two cannot go of two
  match removed with
  | [] => exact absurd hfiltered hfactorizes.not_filtered_diagonal
  | [0] => exact absurd hfirst (by decide)
  | [1] => exact hfiltered
  | [k + 2] =>
    have hlist : f'.columns = 2 := hagrees.columns
    rw [hlist] at hcount
    cases hcount
  | j :: k :: later => exact absurd hcount (by simp only [List.length_cons]; omega)

end Factorization

end Cosimulation.Acceleration

import Cosimulation.Proofs.Factorization.Edits
import Cosimulation.Proofs.Factorization.LeastSquares

/-!
# The normal equations

What solving a factorization is for: with the columns `C` and a vector `r`, it looks for the
coefficients `a` that make `C a + r`, the `remainder`, as short as possible. A factorization that
edits left behind knows its columns only through a basis and coefficients on it; `run_solves` says
what the solution means for the columns themselves, whatever the edits were.

> `run_solves`: without columns there is no solution, and with columns there is one, it is nearer to
> `-r` than all other coefficients (`Nearest`), and it is the one solution of the normal equations
> `Cᵀ (C a + r) = 0` (`Normal`).

`LeastSquares` has the arithmetic: the remainder is orthogonal to the span of the columns
(`Factorizes.solve_residue`), and different coefficients have different combinations
(`Factorizes.combine_injective`). Here the first becomes the normal equations
(`Factorizes.solve_normal`), and with the second, by Pythagoras, whatever solves these is the only
minimizer (`Normal.nearest`). Edits that go through are edits that fit (`fits_of_run`), so every
factorization they leave is one of its columns.
-/

namespace Cosimulation.Acceleration

open scoped RealInnerProductSpace

namespace Factorization

variable {n : Nat} {f : Factorization ℝ} {cs : List (Vec ℝ)} {r : Vec ℝ} {a b : List ℝ}

/-! ## Minimizers -/

/-- The columns times the coefficients, plus the vector. -/
noncomputable def remainder (n : Nat) (cs : List (Vec ℝ)) (r : Vec ℝ) (a : List ℝ) :
    EuclideanSpace ℝ (Fin n) :=
  combine a (cs.map (euclid n)) + euclid n r

/-- All other coefficients leave a longer remainder. -/
structure Nearest (n : Nat) (cs : List (Vec ℝ)) (r : Vec ℝ) (a : List ℝ) : Prop where
  length : a.length = cs.length
  least : ∀ b : List ℝ, b.length = cs.length → b ≠ a →
    ‖remainder n cs r a‖ < ‖remainder n cs r b‖

/-- The remainder is orthogonal to every column. -/
structure Normal (n : Nat) (cs : List (Vec ℝ)) (r : Vec ℝ) (a : List ℝ) : Prop where
  length : a.length = cs.length
  orthogonal : ∀ c ∈ cs, ⟪euclid n c, remainder n cs r a⟫ = 0

/-- Other coefficients add the difference of the combinations to the remainder, at a right angle to
it. -/
theorem Normal.norm_sq (ha : Normal n cs r a) (b : List ℝ) :
    ‖remainder n cs r b‖ ^ 2 = ‖remainder n cs r a‖ ^ 2 +
      ‖combine b (cs.map (euclid n)) - combine a (cs.map (euclid n))‖ ^ 2 := by
  have horth : ∀ u : List ℝ, ⟪remainder n cs r a, combine u (cs.map (euclid n))⟫ = 0 := fun u =>
    inner_combine_eq_zero u (List.forall_mem_map.2 fun c hc =>
      (real_inner_comm _ _).trans (ha.orthogonal c hc))
  have hright : ⟪remainder n cs r a,
      combine b (cs.map (euclid n)) - combine a (cs.map (euclid n))⟫ = 0 := by
    rw [inner_sub_right, horth, horth, sub_zero]
  have hsplit : remainder n cs r b = remainder n cs r a +
      (combine b (cs.map (euclid n)) - combine a (cs.map (euclid n))) := by
    rw [remainder, remainder]
    abel
  rw [hsplit, norm_add_sq_real, hright, mul_zero, add_zero]

/-- What solves the normal equations of independent columns is the only minimizer. -/
theorem Normal.nearest (hf : Factorizes n f cs) (ha : Normal n cs r a) : Nearest n cs r a := by
  refine ⟨ha.length, fun b hb hne => ?_⟩
  have hdiff : 0 < ‖combine b (cs.map (euclid n)) - combine a (cs.map (euclid n))‖ :=
    norm_pos_iff.2 (sub_ne_zero.2 fun h => hne (hf.combine_injective hb ha.length h))
  refine lt_of_pow_lt_pow_left₀ 2 (norm_nonneg _) ?_
  rw [ha.norm_sq b]
  exact lt_add_of_pos_right _ (pow_pos hdiff 2)

/-- The normal equations of independent columns have no second solution. -/
theorem Normal.unique (hf : Factorizes n f cs) (ha : Normal n cs r a) (hb : Normal n cs r b) :
    b = a := by
  by_contra hne
  exact lt_asymm ((ha.nearest hf).least b hb.length hne)
    ((hb.nearest hf).least a ha.length (Ne.symm hne))

/-! ## Solving -/

/-- A factorization with columns has a solution, and it solves the normal equations. -/
theorem Factorizes.solve_normal (hf : Factorizes n f cs) (hne : cs ≠ []) (hr : r.length = n) :
    ∃ a, f.solve r = .ok (some a) ∧ Normal n cs r a := by
  obtain ⟨a, ha, hlen, hres⟩ := hf.solve_residue hne hr
  refine ⟨a, ha, hlen, fun c hc => ?_⟩
  rw [remainder, add_comm, hres]
  refine inner_residue_of_mem hf.orthonormal _ ?_
  rw [hf.spanned_points]
  exact mem_spanned (List.mem_map_of_mem hc)

/-! ## What edits leave -/

/-- An insertion with a result was given a column of the length of the others. -/
theorem Factorizes.length_of_insert (hf : Factorizes n f cs) {v : Vec ℝ}
    {result : Option (Factorization ℝ)} (h : f.insert v = .ok result) : v.length = n := by
  by_contra hne
  rw [insert, if_pos (hf.rows.symm ▸ hne)] at h
  cases h

/-- So was a refactorization with a result, for each of its columns. -/
theorem Factorizes.length_of_insertAll (vs : List (Vec ℝ)) : ∀ {f : Factorization ℝ}
    {cs : List (Vec ℝ)} {i : Nat} {result : Factorization ℝ × List Nat}, Factorizes n f cs →
      f.insertAll i vs = .ok result → ∀ v ∈ vs, v.length = n := by
  induction vs with
  | nil => exact fun _ _ v hv => absurd hv List.not_mem_nil
  | cons v vs ih =>
    intro f cs i result hf h
    rw [Factorization.insertAll] at h
    obtain ⟨inserted, hi, h⟩ := bind_ok h
    have hv : v.length = n := hf.length_of_insert hi
    refine List.forall_mem_cons.2 ⟨hv, ?_⟩
    rcases hf.insert_cases hv with hnone | ⟨f', hsome, hf'⟩
    · obtain rfl := Except.ok.inj (hnone.symm.trans hi)
      obtain ⟨rest, hrest, -⟩ := bind_ok h
      exact ih hf hrest
    · obtain rfl := Except.ok.inj (hsome.symm.trans hi)
      exact ih hf' h

/-- An edit that goes through is one that fits. -/
theorem fits_of_perform {l l' : Ledger ℝ} {e : Edit ℝ}
    (hf : Factorizes n l.factorization l.columns) (h : l.perform e = .ok l') : e.Fits n l := by
  cases e with
  | insert v =>
    obtain ⟨inserted, hi, -⟩ := bind_ok h
    exact hf.length_of_insert hi
  | delete i =>
    obtain ⟨f', hd, -⟩ := bind_ok h
    by_contra hi
    rw [delete, List.drop_eq_nil_of_le (Nat.not_lt.1 hi)] at hd
    cases hd
  | filter filter => exact True.intro
  | rebuild vs =>
    obtain ⟨rebuilt, hr, -⟩ := bind_ok h
    rw [rebuild, hf.rows] at hr
    exact (empty_factorizes n).length_of_insertAll vs hr

/-- Edits that go through leave a factorization of the columns in the ledger. -/
theorem factorizes_of_run : ∀ (es : List (Edit ℝ)) {l l' : Ledger ℝ},
    Factorizes n l.factorization l.columns → l.run es = .ok l' →
      Factorizes n l'.factorization l'.columns := by
  intro es
  induction es with
  | nil =>
    intro l l' hf h
    obtain rfl := Except.ok.inj h
    exact hf
  | cons e es ih =>
    intro l l' hf h
    rw [Ledger.run] at h
    obtain ⟨l₁, h₁, h⟩ := bind_ok h
    obtain ⟨l₂, h₂, hf₂⟩ := perform_factorizes hf (fits_of_perform hf h₁)
    obtain rfl := Except.ok.inj (h₁.symm.trans h₂)
    exact ih hf₂ h

/-- Whatever the edits, solving gives the coefficients of least squares: none without columns, and
otherwise the only minimizer, which is the only solution of the normal equations. -/
theorem run_solves (n : Nat) (es : List (Edit ℝ)) (l : Ledger ℝ)
    (h : (Ledger.empty n).run es = .ok l) (r : Vec ℝ) (hr : r.length = n) :
    (l.factorization.solve r = .ok none ↔ l.columns = []) ∧
      (l.columns ≠ [] → ∃ a, l.factorization.solve r = .ok (some a) ∧ Nearest n l.columns r a ∧
        ∀ b, Normal n l.columns r b ↔ b = a) := by
  have hf := factorizes_of_run es (empty_factorizes n) h
  have hsolved : l.columns ≠ [] → ∃ a, l.factorization.solve r = .ok (some a) ∧
      Nearest n l.columns r a ∧ ∀ b, Normal n l.columns r b ↔ b = a := by
    intro hne
    obtain ⟨a, ha, hn⟩ := hf.solve_normal hne hr
    exact ⟨a, ha, hn.nearest hf, fun b => ⟨hn.unique hf, fun hb => hb ▸ hn⟩⟩
  refine ⟨⟨fun hnone => ?_, fun hnil => ?_⟩, hsolved⟩
  · by_contra hne
    obtain ⟨a, ha, -⟩ := hsolved hne
    cases hnone.symm.trans ha
  · rw [hnil] at hf
    exact hf.solve_nil r

/-- Two columns that are not at right angles span a plane, on which the remainder stands upright. A
third column came between them and went again. -/
theorem run_solves_plane : ∃ l : Ledger ℝ,
    (Ledger.empty 3).run [.insert [1, 0, 0], .insert [0, 0, 2], .insert [3, 4, 0], .delete 1] =
        .ok l ∧
      l.columns = [[1, 0, 0], [3, 4, 0]] ∧
      l.factorization.solve [2, 4, 7] = .ok (some [1, -1]) ∧
      Nearest 3 l.columns [2, 4, 7] [1, -1] := by
  have hshare := refusedShare_lt
  have hx : Vec.norm [(1 : ℝ), 0, 0] = 1 := norm_of_dot zero_le_one (by simp)
  have hy : Vec.norm [(0 : ℝ), 1, 0] = 1 := norm_of_dot zero_le_one (by simp)
  have hz : Vec.norm [(0 : ℝ), 0, 1] = 1 := norm_of_dot zero_le_one (by simp)
  have htwo : Vec.norm [(0 : ℝ), 0, 2] = 2 := norm_of_dot zero_le_two (by simp)
  have hfive : Vec.norm [(3 : ℝ), 4, 0] = 5 := norm_of_dot (by norm_num) (by norm_num)
  obtain ⟨f₁, h₁, hf₁⟩ := (empty_factorizes 3).insert_along (x := [1, 0, 0]) (v := [1, 0, 0]) rfl
    hx.le rfl (fun _ hc => absurd hc List.not_mem_nil) (by norm_num [hx]; linarith)
  obtain ⟨f₂, h₂, hf₂⟩ := hf₁.insert_along (x := [0, 0, 1]) (v := [0, 0, 2]) rfl hz.le rfl
    (by simp) (by norm_num [htwo]; linarith)
  obtain ⟨f₃, h₃, hf₃⟩ := hf₂.insert_along (x := [0, 1, 0]) (v := [3, 4, 0]) rfl hy.le rfl
    (by simp) (by norm_num [hfive]; linarith)
  obtain ⟨f, h, -⟩ := hf₃.delete (i := 1) (by rw [hf₃.columns_eq]; decide)
  have hrun : (Ledger.empty 3).run
      [.insert [1, 0, 0], .insert [0, 0, 2], .insert [3, 4, 0], .delete 1] =
        .ok ⟨f, [[1, 0, 0], [3, 4, 0]]⟩ := by
    simp only [Ledger.run, Ledger.perform, Ledger.empty, h₁, h₂, h₃, h, ok_bind]
    rfl
  obtain ⟨-, hsolved⟩ := run_solves 3 _ _ hrun [2, 4, 7] rfl
  obtain ⟨a, ha, hnearest, hnormal⟩ := hsolved (List.cons_ne_nil _ _)
  have hremainder : remainder 3 [[1, 0, 0], [3, 4, 0]] [2, 4, 7] [1, -1] = euclid 3 [0, 0, 7] := by
    rw [remainder, List.map_cons, List.map_singleton, combine_cons, combine_cons, combine_nil,
      add_zero]
    ext i
    fin_cases i
    · show (1 : ℝ) * 1 + -1 * 3 + 2 = 0
      norm_num
    · show (1 : ℝ) * 0 + -1 * 4 + 4 = 0
      norm_num
    · show (1 : ℝ) * 0 + -1 * 0 + 7 = 7
      norm_num
  have hupright : Normal 3 [[1, 0, 0], [3, 4, 0]] [2, 4, 7] [1, -1] := by
    refine ⟨rfl, fun c hc => ?_⟩
    rw [hremainder]
    rw [List.mem_cons, List.mem_singleton] at hc
    rcases hc with rfl | rfl
    · exact (dot_eq_inner (n := 3) rfl rfl).symm.trans (by norm_num)
    · exact (dot_eq_inner (n := 3) rfl rfl).symm.trans (by norm_num)
  obtain rfl := (hnormal _).1 hupright
  exact ⟨_, hrun, rfl, ha, hnearest⟩

end Factorization

end Cosimulation.Acceleration

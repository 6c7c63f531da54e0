import Cosimulation.Proofs.Factorization.Refactorization

/-!
# Least squares in exact arithmetic

Solving with a factorization gives the coefficients that bring a combination of the columns nearest
to the negative of a vector (`Factorizes.solve_least`), and no other coefficients do
(`combine_injective`).

The coefficients come from back substitution, which goes through the columns from the last to the
first. So does the proof: by `Factorizes.front` the last column is a combination of the basis of the
others and a multiple of the last basis vector, and what is left of the right-hand side is a
right-hand side for the others (`backSubstitute_combine`).
-/

namespace Cosimulation

variable {E : Type} [NormedAddCommGroup E] [InnerProductSpace ℝ E]

theorem combine_axpy (a : ℝ) : ∀ {v w : Vec ℝ}, v.length = w.length → ∀ qs : List E,
    combine (Vec.axpy a v w) qs = a • combine v qs + combine w qs := by
  intro v
  induction v with
  | nil =>
    intro w h qs
    rw [List.length_eq_zero_iff.1 h.symm]
    exact ((add_zero _).trans (smul_zero a)).symm
  | cons x v ih =>
    intro w h qs
    match w, h, qs with
    | y :: w, _, [] =>
      rw [combine, combine, combine, List.zipWith_nil_right, List.zipWith_nil_right,
        List.zipWith_nil_right]
      exact ((add_zero _).trans (smul_zero a)).symm
    | y :: w, h, q :: qs =>
      rw [combine_cons, combine_cons, smul_add, smul_smul]
      show combine ((a * x + y) :: Vec.axpy a v w) (q :: qs) = _
      rw [combine_cons, ih (Nat.succ.inj h), add_smul]
      abel

namespace Acceleration

open scoped RealInnerProductSpace

namespace Factorization

variable {n : Nat} {f : Factorization ℝ} {cs : List (Vec ℝ)}

/-! ## Back substitution -/

/-- Back substitution turns coefficients on the basis into coefficients on the columns. -/
theorem Factorizes.backSubstitute_combine (hf : Factorizes n f cs) {b : List ℝ}
    (hb : b.length = cs.length) : ∃ a, backSubstitute f.upper.reverse b = some a ∧
      a.length = cs.length ∧ combine a (cs.map (euclid n)) = combine b (f.points n) := by
  induction cs using List.reverseRecOn generalizing f b with
  | nil =>
    rw [hf.eq_empty, List.length_eq_zero_iff.1 hb]
    exact ⟨[], rfl, rfl, rfl⟩
  | append_singleton cs c ih =>
    obtain ⟨g, hg, rfl, hacc⟩ := hf.front
    obtain ⟨b, y, rfl, hbl⟩ := exists_concat (hb.trans List.length_append)
    obtain ⟨hcoeff, -, hsize, hrest⟩ :=
      hg.split_parts (hf.column_length c (List.mem_append_right _ List.mem_cons_self))
    obtain ⟨size, hs⟩ : ∃ size, size = ‖residue (g.points n) (euclid n c)‖ := ⟨_, rfl⟩
    have hpos : 0 < size :=
      hs ▸ lt_of_le_of_lt (mul_nonneg refusedShare_pos.le (norm_nonneg _)) hacc
    have hlen : ((g.points n).map fun q => ⟪q, euclid n c⟫).length = b.length := by
      rw [List.length_map, length_points, hg.columns_eq, hbl]
    -- the last coefficient is fixed, and its column goes over to the right-hand side
    obtain ⟨a, ha, hal, hcomb⟩ := ih hg
      (b := Vec.axpy (-(y / size)) ((g.points n).map fun q => ⟪q, euclid n c⟫) b)
      ((Vec.length_axpy hlen _).trans hbl)
    refine ⟨a ++ [y / size], ?_, ?_, ?_⟩
    · show backSubstitute
        (g.upper ++ [(split g.basis c).1 ++ [(split g.basis c).2.norm]]).reverse _ = _
      rw [List.reverse_append, List.reverse_singleton, List.singleton_append, backSubstitute,
        List.getLast?_concat, List.getLast?_concat, hcoeff, hsize, ← hs]
      dsimp only
      rw [if_neg (by simpa using hpos.ne'), List.dropLast_concat, List.dropLast_concat, ha]
      rfl
    · rw [List.length_append, List.length_append, hal]
      rfl
    · rw [List.map_append, combine_append (hal.trans (List.length_map _).symm), hcomb,
        combine_axpy _ hlen, points_grown, hsize, hrest, ← hs, combine_append (by
          rw [hbl, length_points, hg.columns_eq])]
      have hparts : combine ((g.points n).map fun q => ⟪q, euclid n c⟫) (g.points n) =
          euclid n c - residue (g.points n) (euclid n c) := (sub_sub_cancel _ _).symm
      rw [hparts, List.map_singleton, combine_cons, combine_cons, combine_nil, smul_smul,
        ← div_eq_mul_inv, smul_sub, neg_smul, neg_smul]
      abel

/-- Different coefficients have different combinations. -/
theorem Factorizes.combine_injective (hf : Factorizes n f cs) {a b : List ℝ}
    (ha : a.length = cs.length) (hb : b.length = cs.length)
    (h : combine a (cs.map (euclid n)) = combine b (cs.map (euclid n))) : a = b := by
  induction cs using List.reverseRecOn generalizing f a b with
  | nil => rw [List.length_eq_zero_iff.1 ha, List.length_eq_zero_iff.1 hb]
  | append_singleton cs c ih =>
    obtain ⟨g, hg, rfl, hacc⟩ := hf.front
    obtain ⟨a, x, rfl, hal⟩ := exists_concat (ha.trans List.length_append)
    obtain ⟨b, y, rfl, hbl⟩ := exists_concat (hb.trans List.length_append)
    rw [List.map_append, combine_append (hal.trans (List.length_map _).symm),
      combine_append (hbl.trans (List.length_map _).symm), List.map_singleton, combine_cons,
      combine_cons, combine_nil, add_zero, add_zero] at h
    obtain ⟨rest, hr⟩ : ∃ rest, rest = residue (g.points n) (euclid n c) := ⟨_, rfl⟩
    have hpos : 0 < ‖rest‖ :=
      hr ▸ lt_of_le_of_lt (mul_nonneg refusedShare_pos.le (norm_nonneg _)) hacc
    -- what is left of the last column is orthogonal to the others
    have hothers : ∀ u : List ℝ, ⟪combine u (cs.map (euclid n)), rest⟫ = 0 := fun u => by
      rw [hr]
      refine inner_residue_of_mem hg.orthonormal _ ?_
      rw [hg.spanned_points]
      exact combine_mem u fun d hd => mem_spanned hd
    have hlast : ⟪euclid n c, rest⟫ = ‖rest‖ ^ 2 := by
      have hsub := inner_residue_of_mem hg.orthonormal (euclid n c)
        (sub_residue_mem (g.points n) (euclid n c))
      rw [← hr, inner_sub_left, sub_eq_zero, real_inner_self_eq_norm_sq] at hsub
      exact hsub
    -- so the products with it single out the last coefficient
    have hxy : x = y := by
      have hi := congrArg (fun v => ⟪v, rest⟫) h
      simp only [inner_add_left, inner_smul_left, hothers, zero_add, hlast] at hi
      exact mul_right_cancel₀ (pow_ne_zero 2 hpos.ne') hi
    rw [hxy, add_left_inj] at h
    rw [hxy, ih hg hal hbl h]

/-! ## Solving -/

/-- Without columns there is no solution. -/
theorem Factorizes.solve_nil (hf : Factorizes n f []) (r : Vec ℝ) : f.solve r = .ok none := by
  rw [hf.eq_empty]
  rfl

/-- The columns times the coefficients, plus the vector, are what the basis leaves of the vector. -/
theorem Factorizes.solve_residue (hf : Factorizes n f cs) (hne : cs ≠ []) {r : Vec ℝ}
    (hr : r.length = n) : ∃ a, f.solve r = .ok (some a) ∧ a.length = cs.length ∧
      euclid n r + combine a (cs.map (euclid n)) = residue (f.points n) (euclid n r) := by
  have hcols : f.basis.length = cs.length := hf.columns_eq
  obtain ⟨a, ha, hal, hcomb⟩ := hf.backSubstitute_combine
    (b := f.basis.map fun q => -(q.dot r)) ((List.length_map _).trans hcols)
  refine ⟨a, ?_, hal, ?_⟩
  · unfold solve
    rw [if_neg, if_neg fun h => h (hr.trans hf.rows.symm), ha]
    rw [List.isEmpty_iff]
    intro h
    rw [h] at hcols
    exact hne (List.length_eq_zero_iff.1 hcols.symm)
  · have hrhs : (f.basis.map fun q => -(q.dot r)) =
        ((f.points n).map fun q => ⟪q, euclid n r⟫).map (- ·) := by
      rw [points, List.map_map, List.map_map]
      exact List.map_congr_left fun q hq => by
        rw [dot_eq_inner (hf.basis_length q hq) hr]
        rfl
    rw [hcomb, hrhs, combine_neg, ← sub_eq_add_neg]
    rfl

/-- No other combination of the columns comes as near to the negative of the vector. -/
theorem Factorizes.solve_least (hf : Factorizes n f cs) {r : Vec ℝ} (hr : r.length = n)
    {a : List ℝ} (ha : f.solve r = .ok (some a)) :
    a.length = cs.length ∧ ∀ b : List ℝ, ‖euclid n r + combine a (cs.map (euclid n))‖ ≤
      ‖euclid n r + combine b (cs.map (euclid n))‖ := by
  have hne : cs ≠ [] := by
    rintro rfl
    rw [hf.solve_nil] at ha
    cases ha
  obtain ⟨a', ha', hal, hres⟩ := hf.solve_residue hne hr
  rw [ha] at ha'
  obtain rfl := Option.some.inj (Except.ok.inj ha')
  refine ⟨hal, fun b => ?_⟩
  have hmem : -combine b (cs.map (euclid n)) ∈ spanned (f.points n) := by
    rw [hf.spanned_points]
    exact Submodule.neg_mem _ (combine_mem _ fun c hc => mem_spanned hc)
  have hle := norm_residue_le hf.orthonormal (euclid n r) hmem
  rwa [sub_neg_eq_add, ← hres] at hle

end Factorization

end Acceleration

end Cosimulation

import Cosimulation.Proofs.Exact.Relaid
import Cosimulation.Proofs.Factorization.Refactorization

/-!
# Factorizations of relaid columns

Columns that are written down in another order of their rows, all of them `w` times as large, have
the same factorization up to just that: the basis is relaid, and the coefficients and norms are `w`
times as large (`Similar`).

Two similar factorizations stay similar through every operation, and decide alike on the way: they
refuse the same columns (`Similar.insert`, `Similar.insertAll`), a filter removes the same positions
(`Filter.apply_similar`), and the coefficients that solve for a relaid residual are equal
(`Similar.solve`). All of this is about operations that succeed on both.
-/

namespace Cosimulation.Acceleration

open Factorization

namespace Factorization

variable {κ : Type} {rows rows' : List κ} {w : ℝ} {f f' g g' : Factorization ℝ}

/-- The basis is relaid, coefficients and norms are `w` times as large. -/
structure Similar (rows rows' : List κ) (w : ℝ) (f f' : Factorization ℝ) : Prop where
  basis : List.Forall₂ (Relaid rows rows' 1) f.basis f'.basis
  upper : f'.upper = f.upper.map (List.map (w * ·))
  norms : f'.norms = f.norms.map (w * ·)

theorem empty_similar (rows rows' : List κ) (w : ℝ) (m m' : Nat) :
    Similar rows rows' w (empty m) (empty m') :=
  ⟨.nil, rfl, rfl⟩

theorem Similar.columns (h : Similar rows rows' w f f') : f'.columns = f.columns :=
  h.basis.length_eq.symm

/-! ## Inserting -/

theorem relaid_orthogonalize (hrows : rows.Perm rows') : ∀ {qs qs' : List (Vec ℝ)},
    List.Forall₂ (Relaid rows rows' 1) qs qs' → ∀ {u u' : Vec ℝ}, Relaid rows rows' w u u' →
      (orthogonalize qs' u').1 = (orthogonalize qs u).1.map (w * ·) ∧
        Relaid rows rows' w (orthogonalize qs u).2 (orthogonalize qs' u').2 := by
  intro qs qs' h
  induction h with
  | nil => exact fun hu => ⟨rfl, hu⟩
  | @cons q q' qs qs' hq _ ih =>
    intro u u' hu
    have hd : q'.dot u' = w * q.dot u := by rw [hq.dot hrows hu, one_mul]
    have ha : -q'.dot u' * 1 = w * -q.dot u := by rw [hd, mul_one, mul_neg]
    obtain ⟨hfirst, hrest⟩ := ih (hq.axpy ha hu)
    exact ⟨congrArg₂ List.cons hd hfirst, hrest⟩

theorem relaid_split (hrows : rows.Perm rows') {qs qs' : List (Vec ℝ)} {v v' : Vec ℝ}
    (hqs : List.Forall₂ (Relaid rows rows' 1) qs qs') (hv : Relaid rows rows' w v v') :
    (split qs' v').1 = (split qs v).1.map (w * ·) ∧
      Relaid rows rows' w (split qs v).2 (split qs' v').2 := by
  obtain ⟨hfirst, hu⟩ := relaid_orthogonalize hrows hqs hv
  obtain ⟨hsecond, hrest⟩ := relaid_orthogonalize hrows hqs hu
  refine ⟨?_, hrest⟩
  show List.zipWith _ (orthogonalize qs' v').1 (orthogonalize qs' _).1 =
    (List.zipWith _ (orthogonalize qs v).1 (orthogonalize qs _).1).map _
  rw [hfirst, hsecond, List.zipWith_map, List.map_zipWith]
  refine congrArg (fun h => List.zipWith h _ _) (funext fun a => funext fun b => ?_)
  ring

/-- What an insertion that succeeds leaves. -/
theorem insert_eq {v : Vec ℝ} {o : Option (Factorization ℝ)} (h : f.insert v = .ok o) :
    o = if v.norm = 0 ∨ (Factorization.split f.basis v).2.norm ≤ refusedShare * v.norm then none
      else some (f.grown v) := by
  unfold insert at h
  split at h
  next => cases h
  next =>
    simp only [Bool.or_eq_true, beq_iff_eq, decide_eq_true_eq] at h
    split at h
    next hc => rw [if_pos hc, Except.ok.inj h]
    next hc =>
      obtain ⟨k, hk, h⟩ := bind_ok h
      rw [if_neg hc, ← Except.ok.inj h, checked_eq hk]
      rfl

section
variable (hrows : rows.Perm rows') (hw : 0 < w)
include hrows hw

theorem Similar.grown (h : Similar rows rows' w f f') {v v' : Vec ℝ}
    (hv : Relaid rows rows' w v v') : Similar rows rows' w (f.grown v) (f'.grown v') := by
  obtain ⟨hc, hr⟩ := relaid_split hrows h.basis hv
  have hn := hr.norm hrows hw.le
  refine ⟨List.rel_append h.basis (.cons (hr.map fun x => ?_) .nil), ?_, ?_⟩
  · rw [hn, mul_div_mul_left _ _ hw.ne', one_mul]
  · show f'.upper ++ [(split f'.basis v').1 ++ [(split f'.basis v').2.norm]] =
      (f.upper ++ [(split f.basis v).1 ++ [(split f.basis v).2.norm]]).map _
    rw [h.upper, hc, hn, List.map_append, List.map_singleton, List.map_append, List.map_singleton]
  · show f'.norms ++ [v'.norm] = (f.norms ++ [v.norm]).map _
    rw [h.norms, hv.norm hrows hw.le, List.map_append, List.map_singleton]

/-- Both refuse the column, or neither does. -/
theorem Similar.insert (h : Similar rows rows' w f f') {v v' : Vec ℝ}
    (hv : Relaid rows rows' w v v') {o o' : Option (Factorization ℝ)} (ho : f.insert v = .ok o)
    (ho' : f'.insert v' = .ok o') : Option.Rel (Similar rows rows' w) o o' := by
  obtain ⟨-, hr⟩ := relaid_split hrows h.basis hv
  have hcond : (v'.norm = 0 ∨ (Factorization.split f'.basis v').2.norm ≤ refusedShare * v'.norm) ↔
      (v.norm = 0 ∨ (Factorization.split f.basis v).2.norm ≤ refusedShare * v.norm) := by
    rw [hv.norm hrows hw.le, hr.norm hrows hw.le, mul_left_comm, mul_le_mul_iff_right₀ hw,
      mul_eq_zero, or_iff_right hw.ne']
  rw [insert_eq ho, insert_eq ho']
  simp only [hcond]
  split
  next => exact .none
  next => exact .some (h.grown hrows hw hv)

theorem Similar.insertAll : ∀ {vs vs' : List (Vec ℝ)},
    List.Forall₂ (Relaid rows rows' w) vs vs' → ∀ {f f' g g' : Factorization ℝ} {i : Nat}
    {refused refused' : List Nat}, Similar rows rows' w f f' →
      f.insertAll i vs = .ok (g, refused) → f'.insertAll i vs' = .ok (g', refused') →
      refused' = refused ∧ Similar rows rows' w g g' := by
  intro vs vs' hvs
  induction hvs with
  | nil =>
    intro f f' g g' i refused refused' h hg hg'
    obtain ⟨rfl, rfl⟩ := Prod.mk.inj (Except.ok.inj hg)
    obtain ⟨rfl, rfl⟩ := Prod.mk.inj (Except.ok.inj hg')
    exact ⟨rfl, h⟩
  | cons hv _ ih =>
    intro f f' g g' i refused refused' h hg hg'
    obtain ⟨o, ho, hg⟩ := bind_ok hg
    obtain ⟨o', ho', hg'⟩ := bind_ok hg'
    cases h.insert hrows hw hv ho ho' with
    | some hk => exact ih hk hg hg'
    | none =>
      obtain ⟨⟨k, later⟩, hk, hg⟩ := bind_ok hg
      obtain ⟨⟨k', later'⟩, hk', hg'⟩ := bind_ok hg'
      obtain ⟨rfl, rfl⟩ := Prod.mk.inj (Except.ok.inj hg)
      obtain ⟨rfl, rfl⟩ := Prod.mk.inj (Except.ok.inj hg')
      obtain ⟨rfl, hs⟩ := ih h hk hk'
      exact ⟨rfl, hs⟩

/-- Refactorizing relaid columns refuses the same ones. -/
theorem rebuild_similar {vs vs' : List (Vec ℝ)} (hvs : List.Forall₂ (Relaid rows rows' w) vs vs')
    {refused refused' : List Nat} (hg : f.rebuild vs = .ok (g, refused))
    (hg' : f'.rebuild vs' = .ok (g', refused')) :
    refused' = refused ∧ Similar rows rows' w g g' :=
  Similar.insertAll hrows hw hvs (empty_similar rows rows' w _ _) hg hg'

end

/-! ## Deleting -/

theorem rotation_scaled (hw : 0 < w) (a b : ℝ) : rotation (w * a) (w * b) = rotation a b := by
  have hsize : Scalar.hypot (w * a) (w * b) = w * Scalar.hypot a b := by
    show Real.sqrt (w * a * (w * a) + w * b * (w * b)) = w * Real.sqrt (a * a + b * b)
    rw [show w * a * (w * a) + w * b * (w * b) = w * w * (a * a + b * b) by ring,
      Real.sqrt_mul (mul_self_nonneg w), Real.sqrt_mul_self hw.le]
  simp only [rotation, hsize, beq_iff_eq, mul_eq_zero, hw.ne', false_or,
    mul_div_mul_left _ _ hw.ne']

theorem turn_scaled (c s : ℝ) (r : List ℝ) :
    turn c s (r.map (w * ·)) = (w * (turn c s r).1, (turn c s r).2.map (w * ·)) := by
  match r with
  | [] => exact congrArg (·, []) (mul_zero w).symm
  | [x] => exact congrArg (·, [w * x]) (mul_zero w).symm
  | x :: y :: rest =>
    show (c * (w * x) + s * (w * y), (c * (w * y) - s * (w * x)) :: rest.map (w * ·)) =
      (w * (c * x + s * y), w * (c * y - s * x) :: rest.map (w * ·))
    rw [show c * (w * x) + s * (w * y) = w * (c * x + s * y) by ring,
      show c * (w * y) - s * (w * x) = w * (c * y - s * x) by ring]

/-- A sweep turns relaid basis vectors by the same angles. -/
theorem similar_retriangulate (hw : 0 < w) : ∀ {qs qs' : List (Vec ℝ)},
    List.Forall₂ (Relaid rows rows' 1) qs qs' → ∀ {q q' : Vec ℝ}, Relaid rows rows' 1 q q' →
    ∀ columns : List (List ℝ),
      List.Forall₂ (Relaid rows rows' 1) (retriangulate q qs columns).1
          (retriangulate q' qs' (columns.map (List.map (w * ·)))).1 ∧
        (retriangulate q' qs' (columns.map (List.map (w * ·)))).2 =
          (retriangulate q qs columns).2.map (List.map (w * ·)) := by
  intro qs qs' h
  induction h with
  | nil =>
    intro q q' _ columns
    exact ⟨.nil, rfl⟩
  | @cons p p' ps ps' hp _ ih =>
    intro q q' hq columns
    match columns with
    | [] => exact ⟨.nil, rfl⟩
    | [] :: _ => exact ⟨.nil, rfl⟩
    | [_] :: _ => exact ⟨.nil, rfl⟩
    | (a :: b :: rest) :: columns =>
      obtain ⟨c, s, hr⟩ : ∃ c s, rotation a b = (c, s) := ⟨_, _, rfl⟩
      have hr' : rotation (w * a) (w * b) = (c, s) := (rotation_scaled hw a b).trans hr
      have hturn : ((columns.map (List.map (w * ·))).map fun r => (turn c s r).2) =
          (columns.map fun r => (turn c s r).2).map (List.map (w * ·)) := by
        rw [List.map_map, List.map_map]
        exact List.map_congr_left fun r _ => congrArg Prod.snd (turn_scaled c s r)
      have hfirst : ((columns.map (List.map (w * ·))).map fun r => (turn c s r).1) =
          (columns.map fun r => (turn c s r).1).map (w * ·) := by
        rw [List.map_map, List.map_map]
        exact List.map_congr_left fun r _ => congrArg Prod.fst (turn_scaled c s r)
      obtain ⟨hbasis, hsettled⟩ := ih ((hp.scale c).sub (hq.scale s))
        (columns.map fun r => (turn c s r).2)
      show List.Forall₂ _ (retriangulate q (p :: ps) ((a :: b :: rest) :: columns)).1
          (retriangulate q' (p' :: ps')
            ((w * a :: w * b :: rest.map (w * ·)) :: columns.map (List.map (w * ·)))).1 ∧
        (retriangulate q' (p' :: ps')
            ((w * a :: w * b :: rest.map (w * ·)) :: columns.map (List.map (w * ·)))).2 = _
      rw [retriangulate_cons q p ps a b rest columns hr,
        retriangulate_cons q' p' ps' _ _ _ _ hr', hturn, hfirst, hsettled]
      refine ⟨.cons ((hq.scale c).add (hp.scale s)) hbasis, ?_⟩
      rw [List.map_cons, List.map_singleton, List.map_zipWith, List.zipWith_map]
      exact congrArg (fun x => [x] :: _) (by ring)

theorem Similar.delete (hw : 0 < w) (h : Similar rows rows' w f f') {i : Nat}
    (hg : f.delete i = .ok g) (hg' : f'.delete i = .ok g') : Similar rows rows' w g g' := by
  obtain ⟨q, qs, hd, rfl⟩ := delete_eq hg
  obtain ⟨q', qs', hd', rfl⟩ := delete_eq hg'
  have hdrop := List.forall₂_drop i h.basis
  rw [hd, hd'] at hdrop
  obtain ⟨hq, hqs⟩ := List.forall₂_cons.1 hdrop
  have hlater (part : List ℝ → List ℝ) (hpart : ∀ r, part (r.map (w * ·)) = (part r).map (w * ·)) :
      (f'.upper.drop (i + 1)).map part =
        ((f.upper.drop (i + 1)).map part).map (List.map (w * ·)) := by
    rw [h.upper, ← List.map_drop, List.map_map, List.map_map]
    exact List.map_congr_left fun r _ => hpart r
  obtain ⟨hbasis, hsettled⟩ := similar_retriangulate hw hqs hq
    ((f.upper.drop (i + 1)).map (List.drop i))
  rw [← hlater (List.drop i) fun r => List.map_drop.symm] at hbasis hsettled
  refine ⟨List.rel_append (List.forall₂_take i h.basis) hbasis, ?_, ?_⟩
  · show f'.upper.take i ++
      List.zipWith (· ++ ·) ((f'.upper.drop (i + 1)).map (List.take i)) (f'.sweep i q' qs').2 =
        (f.upper.take i ++
          List.zipWith (· ++ ·) ((f.upper.drop (i + 1)).map (List.take i)) (f.sweep i q qs).2).map _
    rw [sweep, hsettled, hlater (List.take i) fun r => List.map_take.symm, h.upper, ← List.map_take,
      List.map_append, List.map_zipWith, List.zipWith_map]
    simp only [List.map_append]
    rfl
  · show f'.norms.eraseIdx i = (f.norms.eraseIdx i).map _
    rw [h.norms, List.eraseIdx_map]

/-! ## Solving -/

theorem axpy_scaled (x : ℝ) : ∀ us vs : List ℝ,
    Vec.axpy x (us.map (w * ·)) (vs.map (w * ·)) = (Vec.axpy x us vs).map (w * ·) := by
  intro us vs
  rw [Vec.axpy, Vec.axpy, List.zipWith_map, List.map_zipWith]
  refine congrArg (fun h => List.zipWith h us vs) (funext fun a => funext fun b => ?_)
  ring

/-- A common factor of matrix and right side changes no solution. -/
theorem backSubstitute_scaled (hw : 0 < w) : ∀ (columns : List (List ℝ)) (rhs : List ℝ),
    backSubstitute (columns.map (List.map (w * ·))) (rhs.map (w * ·)) =
      backSubstitute columns rhs := by
  intro columns
  induction columns with
  | nil => intro rhs; rfl
  | cons column earlier ih =>
    intro rhs
    rw [List.map_cons, backSubstitute, backSubstitute, List.getLast?_map, List.getLast?_map]
    cases column.getLast? with
    | none => rfl
    | some pivot =>
      cases rhs.getLast? with
      | none => rfl
      | some b =>
        simp only [Option.map_some, beq_iff_eq, mul_eq_zero, hw.ne', false_or,
          mul_div_mul_left _ _ hw.ne', ← List.map_dropLast, axpy_scaled, ih]

theorem Similar.solve (hrows : rows.Perm rows') (hw : 0 < w) (h : Similar rows rows' w f f')
    {r r' : Vec ℝ} (hr : Relaid rows rows' w r r') {a a' : Option (List ℝ)}
    (ha : f.solve r = .ok a) (ha' : f'.solve r' = .ok a') : a' = a := by
  have hnil : f'.basis.isEmpty = f.basis.isEmpty := by
    rw [Bool.eq_iff_iff, List.isEmpty_iff_length_eq_zero, List.isEmpty_iff_length_eq_zero,
      h.basis.length_eq]
  have hrhs : (f'.basis.map fun q => -(q.dot r')) =
      (f.basis.map fun q => -(q.dot r)).map (w * ·) := by
    rw [List.map_map, ← List.forall₂_eq_eq_eq, List.forall₂_map_left_iff,
      List.forall₂_map_right_iff]
    refine h.basis.flip.imp fun q' q (hq : Relaid rows rows' 1 q q') => ?_
    show -(q'.dot r') = w * -(q.dot r)
    rw [hq.dot hrows hr, one_mul, mul_neg]
  unfold Factorization.solve at ha ha'
  rw [hnil] at ha'
  split at ha
  next hempty =>
    rw [if_pos hempty] at ha'
    rw [← Except.ok.inj ha, ← Except.ok.inj ha']
  next hempty =>
    rw [if_neg hempty] at ha'
    split at ha
    next => cases ha
    next =>
      split at ha'
      next => cases ha'
      next =>
        rw [← Except.ok.inj ha, ← Except.ok.inj ha', hrhs, h.upper, ← List.map_reverse,
          backSubstitute_scaled hw]

/-! ## Filtering -/

theorem Similar.entry (h : Similar rows rows' w f f') (i j : Nat) :
    f'.entry i j = w * f.entry i j := by
  rw [Factorization.entry, Factorization.entry, h.upper, List.getElem?_map]
  cases f.upper[j]? with
  | none => exact (mul_zero w).symm
  | some r =>
    show ((r.map (w * ·))[i]?).getD 0 = w * (r[i]?).getD 0
    rw [List.getElem?_map]
    cases r[i]? with
    | none => exact (mul_zero w).symm
    | some x => rfl

theorem Similar.columnNorm (h : Similar rows rows' w f f') (i : Nat) :
    f'.columnNorm i = w * f.columnNorm i := by
  rw [Factorization.columnNorm, Factorization.columnNorm, h.norms, List.getElem?_map]
  cases f.norms[i]? with
  | none => exact (mul_zero w).symm
  | some x => rfl

theorem Similar.totalNorm (hw : 0 < w) (h : Similar rows rows' w f f') :
    f'.totalNorm = w * f.totalNorm := by
  -- the coefficients are relaid too, in one order
  have hflat : Relaid (List.range f.upper.flatten.length) (List.range f.upper.flatten.length) w
      f.upper.flatten f'.upper.flatten := by
    have hmap : (List.range f.upper.flatten.length).map (fun k => f.upper.flatten[k]?.getD 0) =
        f.upper.flatten := by
      refine List.ext_getElem (by simp) fun k hk hk' => ?_
      rw [List.getElem_map, List.getElem_range, List.getElem?_eq_getElem hk']
      rfl
    refine ⟨fun k => f.upper.flatten[k]?.getD 0, hmap.symm, ?_⟩
    rw [h.upper, ← List.map_flatten]
    nth_rewrite 1 [← hmap]
    exact List.map_map
  exact hflat.norm (List.Perm.refl _) hw.le

end Factorization

namespace Filter

variable {κ : Type} {rows rows' : List κ} {w : ℝ} {filter : Filter ℝ} {f f' g g' : Factorization ℝ}

theorem shortfall_similar (hw : 0 < w) (h : Similar rows rows' w f f') (i : Nat) :
    filter.shortfall f' i = filter.shortfall f i := by
  have hscaled (t : ℝ) :
      (if w * t ≤ 0 then none
        else if Scalar.abs (f'.diagonal i) / (w * t) < 1 then
          some (Scalar.abs (f'.diagonal i) / (w * t)) else none) =
      if t ≤ 0 then none
        else if Scalar.abs (f.diagonal i) / t < 1 then
          some (Scalar.abs (f.diagonal i) / t) else none := by
    have hdiag : Scalar.abs (f'.diagonal i) = w * Scalar.abs (f.diagonal i) := by
      show |f'.entry i i| = w * |f.entry i i|
      rw [h.entry, abs_mul, abs_of_pos hw]
    have hpos : w * t ≤ 0 ↔ t ≤ 0 := by rw [← not_lt, mul_pos_iff_of_pos_left hw, not_lt]
    simp only [hdiag, mul_div_mul_left _ _ hw.ne', hpos]
  unfold shortfall threshold
  cases filter.kind with
  | none => rfl
  | qr1 =>
    dsimp only
    rw [h.totalNorm hw, mul_left_comm]
    exact hscaled (filter.limit * f.totalNorm)
  | qr2 =>
    dsimp only
    rw [h.columnNorm, mul_left_comm]
    exact hscaled (filter.limit * f.columnNorm i)

theorem mostRedundant_similar (hw : 0 < w) (h : Similar rows rows' w f f') :
    filter.mostRedundant f' = filter.mostRedundant f := by
  rw [mostRedundant, mostRedundant, h.columns, funext (shortfall_similar hw h)]

theorem removeRedundant_similar (hw : 0 < w) : ∀ (fuel : Nat) {f f' g g' : Factorization ℝ}
    {removed removed' : List Nat}, Similar rows rows' w f f' →
      filter.removeRedundant fuel f = .ok (g, removed) →
      filter.removeRedundant fuel f' = .ok (g', removed') →
      removed' = removed ∧ Similar rows rows' w g g' := by
  intro fuel
  induction fuel with
  | zero =>
    intro f f' g g' removed removed' h hg hg'
    obtain ⟨rfl, rfl⟩ := Prod.mk.inj (Except.ok.inj hg)
    obtain ⟨rfl, rfl⟩ := Prod.mk.inj (Except.ok.inj hg')
    exact ⟨rfl, h⟩
  | succ fuel ih =>
    intro f f' g g' removed removed' h hg hg'
    rw [removeRedundant] at hg hg'
    rw [mostRedundant_similar hw h] at hg'
    cases hm : filter.mostRedundant f with
    | none =>
      rw [hm] at hg hg'
      obtain ⟨rfl, rfl⟩ := Prod.mk.inj (Except.ok.inj hg)
      obtain ⟨rfl, rfl⟩ := Prod.mk.inj (Except.ok.inj hg')
      exact ⟨rfl, h⟩
    | some i =>
      rw [hm] at hg hg'
      obtain ⟨k, hk, hg⟩ := bind_ok hg
      obtain ⟨⟨l, later⟩, hl, hg⟩ := bind_ok hg
      obtain ⟨rfl, rfl⟩ := Prod.mk.inj (Except.ok.inj hg)
      obtain ⟨k', hk', hg'⟩ := bind_ok hg'
      obtain ⟨⟨l', later'⟩, hl', hg'⟩ := bind_ok hg'
      obtain ⟨rfl, rfl⟩ := Prod.mk.inj (Except.ok.inj hg')
      obtain ⟨rfl, hs⟩ := ih (h.delete hw hk hk') hl hl'
      exact ⟨rfl, hs⟩

/-- A filter removes the same columns. -/
theorem apply_similar (hw : 0 < w) (h : Similar rows rows' w f f') {removed removed' : List Nat}
    (hg : filter.apply f = .ok (g, removed)) (hg' : filter.apply f' = .ok (g', removed')) :
    removed' = removed ∧ Similar rows rows' w g g' := by
  unfold apply at hg hg'
  rw [h.columns] at hg'
  exact removeRedundant_similar hw f.columns h hg hg'

end Filter

end Cosimulation.Acceleration

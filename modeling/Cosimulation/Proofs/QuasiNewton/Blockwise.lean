import Cosimulation.Proofs.QuasiNewton.Matching
import Cosimulation.Proofs.QuasiNewton.Weights

/-!
# Weights block by block

All rows of a block have one weight. In exact arithmetic a preconditioner is therefore given by a
weight and a sum for each block (`Preconditioner.Blockwise`), and so is what it becomes: the weights
that the settings give (`fit_blockwise`), the sums with a further residual (`Blockwise.accumulate`),
and the weights taken anew (`Blockwise.update`). These depend on the part of the block in values and
residual, and of the other blocks on nothing but the total of the sums; the order of the blocks does
not enter.

Weights of blocks are positive (`freshWeight_pos`), so weighted columns of two schemes can be freed
of their weights and weighted anew on either side (`relaid_rescale`).
-/

namespace Cosimulation.Acceleration

namespace Preconditioner

/-- Weights and sums are given block by block. -/
structure Blockwise (ids : List DataId) (size : DataId → Nat) (ω sums : DataId → ℝ)
    (p : Preconditioner ℝ) : Prop where
  sizes : p.sizes = ids.map size
  weights : p.weights = (blockRows size ids).map fun k => ω k.1
  sums : p.sums = ids.map sums

variable {ids : List DataId} {size : DataId → Nat} {ω sums : DataId → ℝ} {p q : Preconditioner ℝ}
  {g h : DataId × Nat → ℝ}

/-! ## Weights from the settings -/

/-- The weight of a block that the settings give. -/
noncomputable def settledWeight (config : PreconditionerConfig ℝ) (ids : List DataId)
    (id : DataId) : ℝ :=
  1 / ((ids.zip (if config.kind = .constant then config.factors else [])).lookup id).getD 1

theorem weights_of_factors : ∀ {ids : List DataId} {factors : List ℝ}, ids.Nodup →
    factors.length ≤ ids.length →
      (factors.map fun f => 1 / f) ++ List.replicate (ids.length - factors.length) 1 =
        ids.map fun id => 1 / ((ids.zip factors).lookup id).getD 1 := by
  intro ids
  induction ids with
  | nil =>
    intro factors _ hl
    obtain rfl := List.length_eq_zero_iff.1 (Nat.le_zero.1 hl)
    rfl
  | cons id ids ih =>
    intro factors hnodup hl
    obtain ⟨hid, hids⟩ := List.nodup_cons.1 hnodup
    cases factors with
    | nil =>
      have hone : ∀ j, ((1 : ℝ) / ((((id :: ids).zip ([] : List ℝ)).lookup j).getD 1)) = 1 :=
        fun j => by rw [List.zip_nil_right]; exact one_div_one
      simp only [hone, List.map_const']
      rfl
    | cons f fs =>
      have hrest : ids.map (fun j => 1 / (((id :: ids).zip (f :: fs)).lookup j).getD 1) =
          ids.map fun j => 1 / ((ids.zip fs).lookup j).getD 1 :=
        List.map_congr_left fun j hj => by
          rw [List.zip_cons_cons, OrderedMap.lookup_cons_eq_ite,
            if_neg fun hji : j = id => hid (hji ▸ hj)]
      rw [List.map_cons, List.map_cons, hrest, ← ih hids (Nat.le_of_succ_le_succ hl),
        List.zip_cons_cons, OrderedMap.lookup_cons_eq_ite, if_pos rfl, List.length_cons,
        List.length_cons, Nat.add_sub_add_right]
      rfl

/-- The number of factors of settings that pass their check. -/
theorem length_factors_of_validate {config : PreconditionerConfig ℝ} {n : Nat}
    (hv : config.validate n = .ok ()) :
    (if config.kind = .constant then config.factors else []).length ≤ n := by
  split
  next =>
    rcases PreconditionerConfig.validate_ok_iff.1 hv with hempty | ⟨-, hl, -⟩
    · rw [hempty]
      exact Nat.zero_le n
    · exact Nat.le_of_eq hl
  next => exact Nat.zero_le n

theorem fit_blockwise (p : Preconditioner ℝ) (size : DataId → Nat) (hnodup : ids.Nodup)
    (hv : p.config.validate ids.length = .ok ()) :
    (p.fit (ids.map size)).Blockwise ids size (settledWeight p.config ids) fun _ => 0 := by
  refine ⟨rfl, ?_, ?_⟩
  · rw [← spread_map]
    show Vec.spread (ids.map size) (_ ++ List.replicate _ 1) = _
    rw [List.length_map, List.length_map,
      weights_of_factors hnodup (length_factors_of_validate hv)]
    rfl
  · show List.replicate (ids.map size).length 0 = _
    rw [List.length_map, List.map_const']

theorem settledWeight_pos {config : PreconditionerConfig ℝ}
    (hv : config.validate ids.length = .ok ()) (id : DataId) :
    0 < settledWeight config ids id := by
  unfold settledWeight
  split
  next =>
    cases hl : (ids.zip config.factors).lookup id with
    | none => exact one_div_pos.2 one_pos
    | some f =>
      -- a factor that was found is one of the factors, which are positive
      have hf : f ∈ config.factors := (List.of_mem_zip (OrderedMap.mem_of_lookup hl)).2
      rcases PreconditionerConfig.validate_ok_iff.1 hv with hempty | ⟨-, -, hpos⟩
      · rw [hempty] at hf
        exact absurd hf List.not_mem_nil
      · exact one_div_pos.2 (hpos f hf)
  next =>
    rw [List.zip_nil_right]
    exact one_div_pos.2 one_pos

/-! ## Sums -/

/-- The sums with a further residual. -/
noncomputable def summed (p : Preconditioner ℝ) (size : DataId → Nat) (g : DataId × Nat → ℝ)
    (sums : DataId → ℝ) (id : DataId) : ℝ :=
  if p.config.kind ≠ .residualSum ∨ p.frozen then sums id
  else sums id + Vec.norm (part size g id)

theorem Blockwise.accumulate (hp : p.Blockwise ids size ω sums)
    (hq : p.accumulate ((blockRows size ids).map g) = .ok q) :
    q = { p with sums := q.sums } ∧ q.Blockwise ids size ω (p.summed size g sums) := by
  have hsums : q.sums = ids.map (p.summed size g sums) := by
    unfold Preconditioner.accumulate at hq
    split at hq
    next hno =>
      rw [← Except.ok.inj hq, hp.sums]
      exact List.map_congr_left fun id _ => (if_pos hno).symm
    next hyes =>
      rw [hp.sizes, segments_map] at hq
      rw [← Except.ok.inj hq]
      show p.sums.zipWith _ (ids.map (part size g)) = _
      rw [hp.sums, List.zipWith_map, List.zipWith_self]
      exact List.map_congr_left fun id _ => (if_neg hyes).symm
  obtain ⟨_, rfl⟩ := accumulate_eq hq
  exact ⟨rfl, hp.sizes, hp.weights, hsums⟩

theorem summed_nonneg (hs : ∀ id, 0 ≤ sums id) (id : DataId) : 0 ≤ p.summed size g sums id := by
  unfold summed
  split
  next => exact hs id
  next => exact add_nonneg (hs id) (Real.sqrt_nonneg _)

/-! ## Weights taken anew -/

/-- The weight that a block gets from values `g`, residual `h` and the sums. -/
noncomputable def freshWeight (kind : PreconditionerKind) (size : DataId → Nat)
    (g h : DataId × Nat → ℝ) (sums : DataId → ℝ) (total : ℝ) (id : DataId) : ℝ :=
  match kind with
  | .constant => 1
  | .value => invertOrOne (Vec.largest (part size g id) - Vec.smallest (part size g id))
  | .residual => invertOrOne (Vec.norm (part size h id))
  | .residualSum => if vanishing < total then invertOrOne (sums id / total) else 1

theorem Blockwise.blockWeights (hp : p.Blockwise ids size ω sums) :
    p.blockWeights ((blockRows size ids).map g) ((blockRows size ids).map h) =
      .ok (ids.map (freshWeight p.config.kind size g h sums (ids.map sums).sum)) := by
  unfold Preconditioner.blockWeights
  cases p.config.kind with
  | constant =>
    dsimp only
    rw [hp.sizes, List.length_map, ← List.map_const']
    rfl
  | value =>
    dsimp only
    rw [hp.sizes, segments_map]
    show Except.ok (List.map _ (ids.map (part size g))) = _
    rw [List.map_map]
    rfl
  | residual =>
    dsimp only
    rw [hp.sizes, segments_map]
    show Except.ok (List.map _ (ids.map (part size h))) = _
    rw [List.map_map]
    rfl
  | residualSum =>
    dsimp only
    rw [hp.sums, shareWeights, Vec.sum, ← List.sum_eq_foldl, List.map_map]
    rfl

/-- What becomes of weights that are taken anew. -/
theorem Blockwise.update (hp : p.Blockwise ids size ω sums)
    (hopen : ¬ (p.frozen ∨ p.config.kind = .constant))
    (hq : p.update ((blockRows size ids).map g) ((blockRows size ids).map h) = .ok q) :
    q.Blockwise ids size (freshWeight p.config.kind size g h sums (ids.map sums).sum)
        (if p.config.kind = .residualSum then fun _ => 0 else sums) ∧
      q.config = p.config ∧ q.windows = p.windows + 1 ∧
      q.frozen = isExhausted p.config (p.windows + 1) ∧
      (q.weightsChanged = true ↔ p.weightsChanged = true ∨ ∃ k ∈ blockRows size ids,
        freshWeight p.config.kind size g h sums (ids.map sums).sum k.1 ≠ ω k.1) := by
  rw [Preconditioner.update, if_neg hopen, hp.blockWeights] at hq
  obtain rfl := Except.ok.inj hq
  have hfresh : Vec.spread p.sizes
      (ids.map (freshWeight p.config.kind size g h sums (ids.map sums).sum)) =
      (blockRows size ids).map fun k =>
        freshWeight p.config.kind size g h sums (ids.map sums).sum k.1 := by
    rw [hp.sizes, spread_map]
  refine ⟨⟨hp.sizes, ?_, ?_⟩, rfl, rfl, rfl, ?_⟩
  · dsimp only
    rw [hfresh]
    split
    next => rfl
    next hsame =>
      rw [Bool.not_eq_true', Bool.not_eq_false, beq_iff_eq] at hsame
      exact hsame.symm
  · dsimp only
    split
    next => rw [hp.sums, List.length_map, List.map_const']
    next => exact hp.sums
  · dsimp only
    rw [hfresh, hp.weights, Bool.or_eq_true]
    refine or_congr Iff.rfl ?_
    rw [Bool.not_eq_true', beq_eq_false_iff_ne, ne_eq, List.map_inj_left]
    simp only [not_forall, exists_prop, ne_eq]

theorem invertOrOne_pos {x : ℝ} (hx : 0 ≤ x) : 0 < invertOrOne x := by
  unfold invertOrOne
  split
  next => exact one_pos
  next hlarge =>
    refine one_div_pos.2 (lt_of_le_of_ne hx fun h0 => hlarge ?_)
    rw [← h0]
    show |(0 : ℝ)| < vanishing
    rw [abs_zero]
    unfold vanishing
    norm_num

theorem smallest_le_largest (v : Vec ℝ) : v.smallest ≤ v.largest := by
  cases v with
  | nil => exact le_refl _
  | cons x v => exact (smallest_le List.mem_cons_self).trans (le_largest List.mem_cons_self)

theorem freshWeight_pos {kind : PreconditionerKind} (hs : ∀ id, 0 ≤ sums id) {total : ℝ}
    (id : DataId) : 0 < freshWeight kind size g h sums total id := by
  unfold freshWeight
  split
  next => exact one_pos
  next => exact invertOrOne_pos (sub_nonneg.2 (smallest_le_largest _))
  next => exact invertOrOne_pos (Real.sqrt_nonneg _)
  next =>
    split
    next htotal =>
      have hpos : (0 : ℝ) < vanishing := by unfold vanishing; norm_num
      exact invertOrOne_pos (div_nonneg (hs id) (hpos.trans htotal).le)
    next => exact one_pos

/-! ## Columns weighted anew -/

/-- Two lists after each entry went through a computation. -/
theorem forall₂_mapM_both {β β' γ γ' ε : Type} {R : β → β' → Prop} {f : β → Except ε γ}
    {f' : β' → Except ε γ'} {xs : List β} {xs' : List β'} {ys : List γ} {ys' : List γ'}
    (hx : List.Forall₂ R xs xs') (hy : xs.mapM f = .ok ys) (hy' : xs'.mapM f' = .ok ys') :
    List.Forall₂ (fun y y' => ∃ x x', R x x' ∧ f x = .ok y ∧ f' x' = .ok y') ys ys' := by
  have hright : List.Forall₂ (fun x y' => ∃ x', R x x' ∧ f' x' = .ok y') xs ys' :=
    QuasiNewton.forall₂_mapM (fun x x' y' hR hf => ⟨x', hR, hf⟩) hx hy'
  have hleft : List.Forall₂ (fun y' y => ∃ x x', R x x' ∧ f x = .ok y ∧ f' x' = .ok y') ys' ys := by
    refine QuasiNewton.forall₂_mapM ?_ hright.flip hy
    rintro y' x y ⟨x', hR, hf'⟩ hf
    exact ⟨x, x', hR, hf, hf'⟩
  exact hleft.flip

theorem relaid_rescale {κ : Type} {rows rows' : List κ} {w w₁ : ℝ} (hw : 0 < w)
    {p p' q q' : Preconditioner ℝ} (hp : Relaid rows rows' w p.weights p'.weights)
    (hq : Relaid rows rows' w₁ q.weights q'.weights) {vs vs' us us' xs xs' : List (Vec ℝ)}
    (hvs : List.Forall₂ (Relaid rows rows' w) vs vs') (hus : vs.mapM p.revert = .ok us)
    (hus' : vs'.mapM p'.revert = .ok us') (hxs : us.mapM q.apply = .ok xs)
    (hxs' : us'.mapM q'.apply = .ok xs') : List.Forall₂ (Relaid rows rows' w₁) xs xs' := by
  have hplain : List.Forall₂ (Relaid rows rows' 1) us us' := by
    refine (forall₂_mapM_both hvs hus hus').imp ?_
    rintro u u' ⟨v, v', hv, hu, hu'⟩
    unfold Preconditioner.revert at hu hu'
    split at hu
    next =>
      split at hu'
      next =>
        rw [← Except.ok.inj hu, ← Except.ok.inj hu']
        exact hv.zipWith (fun x y => by rw [mul_div_mul_left _ _ hw.ne', one_mul]) hp
      next => cases hu'
    next => cases hu
  refine (forall₂_mapM_both hplain hxs hxs').imp ?_
  rintro x x' ⟨u, u', hu, hx, hx'⟩
  unfold Preconditioner.apply at hx hx'
  split at hx
  next =>
    split at hx'
    next =>
      rw [← Except.ok.inj hx, ← Except.ok.inj hx']
      exact hu.zipWith (fun a b => by ring) hq
    next => cases hx'
  next => cases hx

end Preconditioner

end Cosimulation.Acceleration

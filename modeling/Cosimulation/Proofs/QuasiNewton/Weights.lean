import Cosimulation.Proofs.Exact.Arithmetic
import Cosimulation.Proofs.QuasiNewton.Learning

/-!
# Weights

A preconditioner that fits block lengths keeps fitting them, and on vectors of their total length
all its operations succeed (`Preconditioner.Fits`); that is so in any arithmetic.

In exact arithmetic weighting can be undone. Weights that are ever taken anew are reciprocals, so
none of them is zero, and taking the old weights out and the new ones in is the same as weighting
with the new ones at once. This is the weighing `exactWeighing`: a weighted vector is the product
with the current weights, however often these have changed.
-/

namespace Cosimulation

/-! ## Segments -/

namespace Vec

variable {α : Type}

theorem segments_total : ∀ (ns : List Nat) {v : Vec α}, ns.sum ≤ v.length →
    ∃ segments, v.segments ns = .ok segments ∧ segments.length = ns.length := by
  intro ns
  induction ns with
  | nil => intro v _; exact ⟨[], rfl, rfl⟩
  | cons n ns ih =>
    intro v h
    rw [List.sum_cons] at h
    obtain ⟨rest, hr, hl⟩ := ih (v := v.drop n) (by rw [List.length_drop]; omega)
    refine ⟨v.take n :: rest, ?_, congrArg (· + 1) hl⟩
    rw [segments, if_pos (by omega), hr]
    rfl

theorem length_spread : ∀ {sizes : List Nat} {values : List α}, sizes.length ≤ values.length →
    (spread sizes values).length = sizes.sum := by
  intro sizes
  induction sizes with
  | nil => intro values _; rfl
  | cons n ns ih =>
    intro values h
    cases values with
    | nil => exact absurd h (Nat.not_succ_le_zero _)
    | cons x xs =>
      have hrest := ih (Nat.le_of_succ_le_succ h)
      rw [spread] at hrest ⊢
      rw [List.zipWith_cons_cons, List.flatten_cons, List.length_append, List.length_replicate,
        hrest, List.sum_cons]

end Vec

namespace Acceleration

namespace Preconditioner

/-! ## Fitting the blocks -/

section
variable {α : Type}

/-- A weight for each row, and a sum for each block. -/
structure Fits (p : Preconditioner α) (sizes : List Nat) : Prop where
  blocks : p.sizes = sizes
  weights : p.weights.length = sizes.sum
  sums : p.sums.length = sizes.length

variable [Scalar α] {p : Preconditioner α} {sizes : List Nat}

theorem fit_fits (p : Preconditioner α) (sizes : List Nat) : (p.fit sizes).Fits sizes := by
  refine ⟨rfl, Vec.length_spread ?_, List.length_replicate⟩
  rw [List.length_append, List.length_replicate]
  omega

theorem Fits.apply_total (h : p.Fits sizes) {v : Vec α} (hv : v.length = sizes.sum) :
    p.apply v = .ok (v.zipWith (· * ·) p.weights) := if_pos (hv.trans h.weights.symm)

theorem Fits.revert_total (h : p.Fits sizes) {v : Vec α} (hv : v.length = sizes.sum) :
    p.revert v = .ok (v.zipWith (· / ·) p.weights) := if_pos (hv.trans h.weights.symm)

omit [Scalar α] in
theorem Fits.length_zipWith (h : p.Fits sizes) (f : α → α → α) {v : Vec α}
    (hv : v.length = sizes.sum) : (v.zipWith f p.weights).length = sizes.sum := by
  rw [List.length_zipWith, hv, h.weights, Nat.min_self]

theorem Fits.accumulate_total (h : p.Fits sizes) {r : Vec α} (hr : r.length = sizes.sum) :
    ∃ p', p.accumulate r = .ok p' ∧ p'.Fits sizes := by
  unfold accumulate
  split
  next => exact ⟨p, rfl, h⟩
  next =>
    obtain ⟨segments, hs, hl⟩ := r.segments_total sizes (Nat.le_of_eq hr.symm)
    rw [h.blocks, hs]
    refine ⟨_, rfl, rfl, h.weights, ?_⟩
    rw [List.length_zipWith, h.sums, hl, Nat.min_self]

theorem Fits.blockWeights_total (h : p.Fits sizes) {v r : Vec α} (hv : v.length = sizes.sum)
    (hr : r.length = sizes.sum) :
    ∃ ws, p.blockWeights v r = .ok ws ∧ ws.length = sizes.length := by
  unfold blockWeights
  cases p.config.kind with
  | constant => exact ⟨_, rfl, by rw [List.length_replicate, h.blocks]⟩
  | value =>
    obtain ⟨segments, hs, hl⟩ := v.segments_total sizes (Nat.le_of_eq hv.symm)
    dsimp only
    rw [h.blocks, hs]
    exact ⟨_, rfl, (List.length_map _).trans hl⟩
  | residual =>
    obtain ⟨segments, hs, hl⟩ := r.segments_total sizes (Nat.le_of_eq hr.symm)
    dsimp only
    rw [h.blocks, hs]
    exact ⟨_, rfl, (List.length_map _).trans hl⟩
  | residualSum => exact ⟨_, rfl, (List.length_map _).trans h.sums⟩

theorem Fits.update_total (h : p.Fits sizes) {v r : Vec α} (hv : v.length = sizes.sum)
    (hr : r.length = sizes.sum) : ∃ p', p.update v r = .ok p' ∧ p'.Fits sizes := by
  unfold update
  split
  next => exact ⟨p, rfl, h⟩
  next =>
    obtain ⟨ws, hw, hl⟩ := h.blockWeights_total hv hr
    rw [hw]
    refine ⟨_, rfl, h.blocks, ?_, ?_⟩
    · dsimp only
      split
      next =>
        rw [h.blocks]
        exact Vec.length_spread (Nat.le_of_eq hl.symm)
      next => exact h.weights
    · dsimp only
      split
      next => rw [List.length_replicate, h.sums]
      next => exact h.sums

/-- Without a change to deal with, the weights are the old ones. -/
theorem weights_of_unchanged {p' : Preconditioner α} {v r : Vec α} (h : p.update v r = .ok p')
    (hc : p'.weightsChanged = false) : p'.weights = p.weights := by
  unfold update at h
  split at h
  next => rw [← Except.ok.inj h]
  next =>
    obtain ⟨ws, -, h⟩ := bind_ok h
    obtain rfl := Except.ok.inj h
    dsimp only at hc ⊢
    rw [Bool.or_eq_false_iff] at hc
    rw [hc.2]
    rfl

end

/-! ## Undoing weights -/

/-- Weights that are taken anew are never zero. -/
def Invertible (p : Preconditioner ℝ) : Prop :=
  (p.config.kind = .constant ∧ p.frozen = true) ∨ ∀ w ∈ p.weights, w ≠ 0

theorem invertOrOne_of_nonneg {x : ℝ} (hx : 0 ≤ x) :
    invertOrOne x = if vanishing ≤ x then 1 / x else 1 := by
  have habs : Scalar.abs x = x := abs_of_nonneg hx
  by_cases hlarge : vanishing ≤ x
  · rw [invertOrOne, if_neg (fun h => not_lt.2 hlarge (habs.symm.trans_lt h)), if_pos hlarge]
  · rw [invertOrOne, if_pos (habs.trans_lt (not_le.1 hlarge)), if_neg hlarge]

theorem invertOrOne_ne_zero (x : ℝ) : invertOrOne x ≠ 0 := by
  unfold invertOrOne
  split
  next => exact one_ne_zero
  next h =>
    refine one_div_ne_zero fun hx => h ?_
    rw [hx]
    show |(0 : ℝ)| < vanishing
    rw [abs_zero]
    unfold vanishing
    norm_num

theorem mem_of_mem_spread {α : Type} {w : α} : ∀ {sizes : List Nat} {values : List α},
    w ∈ Vec.spread sizes values → w ∈ values := by
  intro sizes
  induction sizes with
  | nil => intro values h; exact absurd h List.not_mem_nil
  | cons n ns ih =>
    intro values h
    cases values with
    | nil => exact absurd h List.not_mem_nil
    | cons x xs =>
      rcases List.mem_append.1 h with h | h
      · rw [List.eq_of_mem_replicate h]
        exact List.mem_cons_self
      · exact List.mem_cons_of_mem _ (ih h)

theorem invertible_fit (p : Preconditioner ℝ) (sizes : List Nat) : (p.fit sizes).Invertible := by
  by_cases hk : p.config.kind = .constant
  · exact .inl ⟨hk, decide_eq_true hk⟩
  · refine .inr fun w hw => ?_
    have hm : w ∈ ((if p.config.kind = .constant then p.config.factors else []).map
        fun f => 1 / f) ++ List.replicate _ 1 := mem_of_mem_spread hw
    rw [if_neg hk] at hm
    rw [List.eq_of_mem_replicate hm]
    exact one_ne_zero

theorem Invertible.accumulate {p p' : Preconditioner ℝ} {r : Vec ℝ} (h : p.Invertible)
    (ha : p.accumulate r = .ok p') : p'.Invertible := by
  obtain ⟨sums, rfl⟩ := accumulate_eq ha
  exact h

/-- What a weight taken anew is the reciprocal of, if it is not one. -/
theorem mem_blockWeights {p : Preconditioner ℝ} {v r : Vec ℝ} {ws : List ℝ} {w : ℝ}
    (h : p.blockWeights v r = .ok ws) (hw : w ∈ ws) :
    w = 1 ∨ (∃ s : Vec ℝ, w = invertOrOne (s.largest - s.smallest)) ∨
      (∃ s : Vec ℝ, w = invertOrOne s.norm) ∨
      ∃ sum ∈ p.sums, vanishing < Vec.sum p.sums ∧ w = invertOrOne (sum / Vec.sum p.sums) := by
  unfold blockWeights at h
  cases hk : p.config.kind with
  | constant =>
    rw [hk] at h
    obtain rfl := Except.ok.inj h
    exact .inl (List.eq_of_mem_replicate hw)
  | value =>
    rw [hk] at h
    obtain ⟨segments, -, h⟩ := bind_ok h
    obtain rfl := Except.ok.inj h
    obtain ⟨s, -, rfl⟩ := List.mem_map.1 hw
    exact .inr (.inl ⟨s, rfl⟩)
  | residual =>
    rw [hk] at h
    obtain ⟨segments, -, h⟩ := bind_ok h
    obtain rfl := Except.ok.inj h
    obtain ⟨s, -, rfl⟩ := List.mem_map.1 hw
    exact .inr (.inr (.inl ⟨s, rfl⟩))
  | residualSum =>
    rw [hk] at h
    obtain rfl := Except.ok.inj h
    obtain ⟨sum, hsum, rfl⟩ := List.mem_map.1 hw
    split
    next htotal => exact .inr (.inr (.inr ⟨sum, hsum, htotal, rfl⟩))
    next => exact .inl rfl

theorem blockWeights_ne_zero {p : Preconditioner ℝ} {v r : Vec ℝ} {ws : List ℝ}
    (h : p.blockWeights v r = .ok ws) : ∀ w ∈ ws, w ≠ 0 := by
  intro w hw
  rcases mem_blockWeights h hw with rfl | ⟨s, rfl⟩ | ⟨s, rfl⟩ | ⟨sum, -, -, rfl⟩
  · exact one_ne_zero
  all_goals exact invertOrOne_ne_zero _

theorem Invertible.update {p p' : Preconditioner ℝ} {v r : Vec ℝ} (h : p.Invertible)
    (hu : p.update v r = .ok p') : p'.Invertible := by
  unfold Preconditioner.update at hu
  split at hu
  next =>
    obtain rfl := Except.ok.inj hu
    exact h
  next hk =>
    rw [not_or] at hk
    obtain ⟨ws, hw, hu⟩ := bind_ok hu
    obtain rfl := Except.ok.inj hu
    refine .inr fun w hmem => ?_
    dsimp only at hmem
    -- the weights are new, or those of before, which are not constant ones
    split at hmem
    next => exact blockWeights_ne_zero hw w (mem_of_mem_spread hmem)
    next => exact h.resolve_left (fun hc => hk.2 hc.1) w hmem

theorem zipWith_div_mul : ∀ {v ws : Vec ℝ}, v.length = ws.length → (∀ w ∈ ws, w ≠ 0) →
    (v.zipWith (· * ·) ws).zipWith (· / ·) ws = v := by
  intro v
  induction v with
  | nil => intro ws _ _; rfl
  | cons x v ih =>
    intro ws hl h
    match ws, hl, h with
    | w :: ws, hl, h =>
      show x * w / w :: (v.zipWith (· * ·) ws).zipWith (· / ·) ws = x :: v
      rw [mul_div_cancel_right₀ x (h w List.mem_cons_self),
        ih (Nat.succ.inj hl) fun u hu => h u (List.mem_cons_of_mem _ hu)]

theorem zipWith_mul_div : ∀ {v ws : Vec ℝ}, v.length = ws.length → (∀ w ∈ ws, w ≠ 0) →
    (v.zipWith (· / ·) ws).zipWith (· * ·) ws = v := by
  intro v
  induction v with
  | nil => intro ws _ _; rfl
  | cons x v ih =>
    intro ws hl h
    match ws, hl, h with
    | w :: ws, hl, h =>
      show x / w * w :: (v.zipWith (· / ·) ws).zipWith (· * ·) ws = x :: v
      rw [div_mul_cancel₀ x (h w List.mem_cons_self),
        ih (Nat.succ.inj hl) fun u hu => h u (List.mem_cons_of_mem _ hu)]

/-- Before the weights are frozen none of them is zero. -/
theorem Invertible.ne_zero {p : Preconditioner ℝ} (h : p.Invertible) (hf : p.frozen = false) :
    ∀ w ∈ p.weights, w ≠ 0 :=
  h.resolve_left fun hc => absurd (hc.2.symm.trans hf) Bool.noConfusion

end Preconditioner

/-- A weighted vector is its product with the weights in force. -/
noncomputable def exactWeighing : Weighing ℝ where
  Good := Preconditioner.Invertible
  Scaled weights v x := v.length = weights.length ∧ x = v.zipWith (· * ·) weights
  good_new _ := .inr fun _ h => absurd h List.not_mem_nil
  good_fit := Preconditioner.invertible_fit
  good_accumulate := Preconditioner.Invertible.accumulate
  good_update := Preconditioner.Invertible.update
  good_acknowledge h := h
  apply := by
    intro p v x _ ha
    unfold Preconditioner.apply at ha
    split at ha
    next hl => exact ⟨hl, (Except.ok.inj ha).symm⟩
    next => cases ha
  again := by
    rintro p p' v r u x y z hgood hfrozen _ ⟨hl, rfl⟩ hr ha
    have hne := Preconditioner.Invertible.ne_zero hgood hfrozen
    unfold Preconditioner.revert at hr
    split at hr
    next =>
      obtain rfl := Except.ok.inj hr
      -- without its old weight the vector is the unweighted one again
      rw [Preconditioner.zipWith_div_mul hl hne] at ha
      unfold Preconditioner.apply at ha
      split at ha
      next hl' => exact ⟨hl', (Except.ok.inj ha).symm⟩
      next => cases ha
    next => cases hr

end Acceleration

end Cosimulation

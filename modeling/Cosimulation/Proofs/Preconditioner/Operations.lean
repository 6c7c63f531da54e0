import Cosimulation.Proofs.QuasiNewton.Blockwise

/-!
# Preconditioners under their operations

`Operation` lists what can be asked of a preconditioner, `after` does it, and `run` does one
operation after the other up to the first violation. Vectors suit the blocks if they have an entry
for each row of the blocks that were fitted last (`Suited`); then nothing is violated.

In exact arithmetic a preconditioner scales the blocks (`Scaling`): every block has a positive
weight, which all its rows share, and sums of norms are not negative. The settings give positive
weights because their factors are positive, and weights that are taken anew are reciprocals of
ranges, norms and shares, or one where these vanish, so each operation keeps this up
(`Scaling.after`). Weighting can therefore be undone in either order after any run
(`scaling_of_run`).
-/

namespace Cosimulation.Acceleration.Preconditioner

section
variable {α : Type}

/-- What is asked of a preconditioner. -/
inductive Operation (α : Type) where
  | fit (sizes : List Nat)
  | accumulate (residual : Vec α)
  | update (values residual : Vec α)
  | acknowledge

/-- The block lengths in force after an operation. -/
def Operation.sizes (before : List Nat) : Operation α → List Nat
  | .fit sizes => sizes
  | _ => before

/-- The vectors of the operation have an entry for each row of the blocks. -/
def Operation.Suits (sizes : List Nat) : Operation α → Prop
  | .accumulate residual => residual.length = sizes.sum
  | .update values residual => values.length = sizes.sum ∧ residual.length = sizes.sum
  | _ => True

/-- The block lengths in force after several operations. -/
def fitted (sizes : List Nat) (ops : List (Operation α)) : List Nat :=
  ops.foldl Operation.sizes sizes

/-- The vectors of each operation suit the blocks that are in force there. -/
def Suited : List Nat → List (Operation α) → Prop
  | _, [] => True
  | sizes, op :: ops => op.Suits sizes ∧ Suited (op.sizes sizes) ops

variable [Scalar α]

/-- The preconditioner after an operation. -/
def after (p : Preconditioner α) : Operation α → Except (Violation α) (Preconditioner α)
  | .fit sizes => .ok (p.fit sizes)
  | .accumulate residual => p.accumulate residual
  | .update values residual => p.update values residual
  | .acknowledge => .ok p.acknowledge

/-- The preconditioner after several operations. -/
def run (p : Preconditioner α) : List (Operation α) → Except (Violation α) (Preconditioner α)
  | [] => .ok p
  | op :: ops => do
    let p' ← p.after op
    p'.run ops

theorem run_append (ops ops' : List (Operation α)) : ∀ p : Preconditioner α,
    p.run (ops ++ ops') = p.run ops >>= fun p' => p'.run ops' := by
  induction ops with
  | nil => intro p; rfl
  | cons op ops ih =>
    intro p
    rw [List.cons_append, run, run]
    cases p.after op with
    | ok p₁ => exact ih p₁
    | error v => rfl

/-- What an update does, if it does anything. -/
theorem update_parts {p p' : Preconditioner α} {values residual : Vec α}
    (h : p.update values residual = .ok p') :
    (p.frozen = true ∨ p.config.kind = .constant) ∧ p' = p ∨
      ¬ (p.frozen = true ∨ p.config.kind = .constant) ∧
        ∃ ws, p.blockWeights values residual = .ok ws ∧
          p'.sizes = p.sizes ∧ p'.config = p.config ∧
          (p'.weights = Vec.spread p.sizes ws ∧ p'.weightsChanged = true ∨
            (Vec.spread p.sizes ws == p.weights) = true ∧ p'.weights = p.weights ∧
              p'.weightsChanged = p.weightsChanged) ∧
          p'.sums = (if p.config.kind = .residualSum then List.replicate p.sums.length 0
            else p.sums) ∧
          p'.windows = p.windows + 1 ∧ p'.frozen = isExhausted p.config (p.windows + 1) := by
  unfold update at h
  split at h
  next hclosed => exact .inl ⟨hclosed, (Except.ok.inj h).symm⟩
  next hopen =>
    obtain ⟨ws, hws, h⟩ := bind_ok h
    obtain rfl := Except.ok.inj h
    refine .inr ⟨hopen, ws, hws, rfl, rfl, ?_, rfl, rfl, rfl⟩
    dsimp only
    cases Vec.spread p.sizes ws == p.weights with
    | true => exact .inr ⟨rfl, rfl, Bool.or_false _⟩
    | false => exact .inl ⟨rfl, Bool.or_true _⟩

end

/-! ## Positive weights -/

/-- Every block has a positive weight, and sums that can be divided by their total. -/
structure Scaling (p : Preconditioner ℝ) (sizes : List Nat) : Prop extends p.Fits sizes where
  factors : ∀ f ∈ p.config.factors, 0 < f
  positive : ∃ ws : List ℝ, ws.length = sizes.length ∧ (∀ w ∈ ws, 0 < w) ∧
    p.weights = Vec.spread sizes ws
  nonneg : ∀ s ∈ p.sums, 0 ≤ s

/-- Values beyond the blocks are not used. -/
theorem spread_take {α : Type} : ∀ (sizes : List Nat) (values : List α),
    Vec.spread sizes (values.take sizes.length) = Vec.spread sizes values := by
  intro sizes
  induction sizes with
  | nil => intro values; rfl
  | cons n ns ih =>
    intro values
    cases values with
    | nil => rfl
    | cons x xs => exact congrArg (List.replicate n x ++ ·) (ih xs)

variable {p p' : Preconditioner ℝ} {sizes : List Nat}

theorem scaling_new {config : PreconditionerConfig ℝ} (h : ∀ f ∈ config.factors, 0 < f) :
    (new config).Scaling [] :=
  ⟨⟨rfl, rfl, rfl⟩, h, ⟨[], rfl, fun _ hw => absurd hw List.not_mem_nil, rfl⟩,
    fun _ hs => absurd hs List.not_mem_nil⟩

theorem scaling_fit (h : ∀ f ∈ p.config.factors, 0 < f) (sizes : List Nat) :
    (p.fit sizes).Scaling sizes := by
  refine ⟨fit_fits p sizes, h, ?_, fun s hs => (List.eq_of_mem_replicate hs).ge⟩
  let factors := if p.config.kind = .constant then p.config.factors else []
  let ws := factors.map (fun f => 1 / f) ++
    List.replicate (sizes.length - (factors.map fun f => 1 / f).length) 1
  -- there may be more factors than blocks
  refine ⟨ws.take sizes.length, ?_, fun w hw => ?_, (spread_take sizes ws).symm⟩
  · rw [List.length_take, List.length_append, List.length_replicate]
    omega
  · rcases List.mem_append.1 (List.mem_of_mem_take hw) with hw | hw
    · obtain ⟨f, hf, rfl⟩ := List.mem_map.1 hw
      have hf : f ∈ p.config.factors := by
        by_cases hk : p.config.kind = .constant
        · rwa [show factors = p.config.factors from if_pos hk] at hf
        · rw [show factors = [] from if_neg hk] at hf
          exact absurd hf List.not_mem_nil
      exact one_div_pos.2 (h f hf)
    · exact (List.eq_of_mem_replicate hw).symm ▸ one_pos

namespace Scaling

theorem acknowledge (h : p.Scaling sizes) : p.acknowledge.Scaling sizes :=
  ⟨⟨h.blocks, h.weights, h.sums⟩, h.factors, h.positive, h.nonneg⟩

theorem accumulate (h : p.Scaling sizes) {residual : Vec ℝ} (hr : residual.length = sizes.sum) :
    ∃ p', p.accumulate residual = .ok p' ∧ p'.Scaling sizes := by
  obtain ⟨p', hp', hfits⟩ := h.toFits.accumulate_total hr
  have hnonneg : ∀ s ∈ p'.sums, 0 ≤ s := by
    unfold Preconditioner.accumulate at hp'
    split at hp'
    next =>
      obtain rfl := Except.ok.inj hp'
      exact h.nonneg
    next =>
      obtain ⟨segments, -, hp'⟩ := bind_ok hp'
      obtain rfl := Except.ok.inj hp'
      intro s hs
      obtain ⟨i, hi, rfl⟩ := List.mem_iff_getElem.1 hs
      rw [List.length_zipWith] at hi
      rw [List.getElem_zipWith]
      exact add_nonneg (h.nonneg _ (List.getElem_mem _)) (Real.sqrt_nonneg _)
  obtain ⟨sums, rfl⟩ := accumulate_eq hp'
  exact ⟨_, hp', hfits, h.factors, h.positive, hnonneg⟩

/-- A weight that is taken anew is positive, whatever the block looks like. -/
theorem blockWeights_pos (h : p.Scaling sizes) {values residual : Vec ℝ} {ws : List ℝ}
    (hws : p.blockWeights values residual = .ok ws) : ∀ w ∈ ws, 0 < w := by
  intro w hw
  rcases mem_blockWeights hws hw with rfl | ⟨s, rfl⟩ | ⟨s, rfl⟩ | ⟨s, hs, htotal, rfl⟩
  · exact one_pos
  · exact invertOrOne_pos (sub_nonneg.2 (smallest_le_largest s))
  · exact invertOrOne_pos (Real.sqrt_nonneg _)
  · have hpos : (0 : ℝ) < vanishing := by unfold vanishing; norm_num
    exact invertOrOne_pos (div_nonneg (h.nonneg s hs) (hpos.trans htotal).le)

theorem update (h : p.Scaling sizes) {values residual : Vec ℝ} (hv : values.length = sizes.sum)
    (hr : residual.length = sizes.sum) :
    ∃ p', p.update values residual = .ok p' ∧ p'.Scaling sizes := by
  obtain ⟨p', hp', hfits⟩ := h.toFits.update_total hv hr
  refine ⟨p', hp', ?_⟩
  rcases update_parts hp' with ⟨-, rfl⟩ | ⟨-, ws, hws, -, hconfig, hweights, hsums, -⟩
  · exact h
  refine ⟨hfits, hconfig.symm ▸ h.factors, ?_, ?_⟩
  · rcases hweights with ⟨hnew, -⟩ | ⟨-, hold, -⟩
    · obtain ⟨ws', hws', hl⟩ := h.toFits.blockWeights_total hv hr
      obtain rfl := Except.ok.inj (hws'.symm.trans hws)
      exact ⟨ws', hl, h.blockWeights_pos hws, hnew.trans (by rw [h.blocks])⟩
    · exact hold.symm ▸ h.positive
  · rw [hsums]
    split
    next => exact fun s hs => (List.eq_of_mem_replicate hs).ge
    next => exact h.nonneg

theorem after (h : p.Scaling sizes) {op : Operation ℝ} (hop : op.Suits sizes) :
    ∃ p', p.after op = .ok p' ∧ p'.Scaling (op.sizes sizes) := by
  cases op with
  | fit sizes => exact ⟨_, rfl, scaling_fit h.factors sizes⟩
  | accumulate residual => exact h.accumulate hop
  | update values residual => exact h.update hop.1 hop.2
  | acknowledge => exact ⟨_, rfl, h.acknowledge⟩

theorem run {ops : List (Operation ℝ)} : ∀ {p : Preconditioner ℝ} {sizes : List Nat},
    p.Scaling sizes → Suited sizes ops →
      ∃ p', p.run ops = .ok p' ∧ p'.Scaling (fitted sizes ops) := by
  induction ops with
  | nil => exact fun h _ => ⟨_, rfl, h⟩
  | cons op ops ih =>
    intro p sizes h hops
    obtain ⟨p₁, hp₁, h₁⟩ := h.after hops.1
    obtain ⟨p', hp', h'⟩ := ih h₁ hops.2
    refine ⟨p', ?_, h'⟩
    rw [Preconditioner.run, hp₁]
    exact hp'

theorem weights_pos (h : p.Scaling sizes) : ∀ w ∈ p.weights, 0 < w := by
  obtain ⟨ws, -, hpos, hspread⟩ := h.positive
  rw [hspread]
  exact fun w hw => hpos w (mem_of_mem_spread hw)

/-! ## Weighting and back -/

theorem revert_apply (h : p.Scaling sizes) {v : Vec ℝ} (hv : v.length = sizes.sum) :
    ∃ u, p.apply v = .ok u ∧ p.revert u = .ok v := by
  refine ⟨_, h.apply_total hv, ?_⟩
  rw [h.revert_total (h.length_zipWith _ hv),
    zipWith_div_mul (hv.trans h.weights.symm) fun w hw => (h.weights_pos w hw).ne']

theorem apply_revert (h : p.Scaling sizes) {v : Vec ℝ} (hv : v.length = sizes.sum) :
    ∃ u, p.revert v = .ok u ∧ p.apply u = .ok v := by
  refine ⟨_, h.revert_total hv, ?_⟩
  rw [h.apply_total (h.length_zipWith _ hv),
    zipWith_mul_div (hv.trans h.weights.symm) fun w hw => (h.weights_pos w hw).ne']

end Scaling

/-- The factors of settings that pass their check are positive. -/
theorem factors_pos_of_validate {config : PreconditionerConfig ℝ} {n : Nat}
    (h : config.validate n = .ok ()) : ∀ f ∈ config.factors, 0 < f := by
  rcases PreconditionerConfig.validate_ok_iff.1 h with hempty | ⟨-, -, hpos⟩
  · rw [hempty]
    exact fun _ hf => absurd hf List.not_mem_nil
  · exact hpos

/-- Settings that pass their check, for whatever number of blocks, and operations with vectors of
the right length lead to a preconditioner that scales the blocks: there is a weight for each row,
positive and the same for all rows of a block, and weighting can be undone in either order. An
update that leaves other weights than before says so. -/
theorem scaling_of_run {config : PreconditionerConfig ℝ} {n : Nat}
    (h : config.validate n = .ok ()) {ops : List (Operation ℝ)} (hops : Suited [] ops) :
    ∃ p, (new config).run ops = .ok p ∧ p.weights.length = (fitted [] ops).sum ∧
      (∃ ws : List ℝ, ws.length = (fitted [] ops).length ∧ (∀ w ∈ ws, 0 < w) ∧
        p.weights = Vec.spread (fitted [] ops) ws) ∧
      (∀ v : Vec ℝ, v.length = (fitted [] ops).sum →
        (∃ u, p.apply v = .ok u ∧ p.revert u = .ok v) ∧
          ∃ u, p.revert v = .ok u ∧ p.apply u = .ok v) ∧
      ∀ values residual : Vec ℝ, values.length = (fitted [] ops).sum →
        residual.length = (fitted [] ops).sum → ∃ p', p.update values residual = .ok p' ∧
          (p'.weights ≠ p.weights → p'.weightsChanged = true) := by
  obtain ⟨p, hp, hscaling⟩ := (scaling_new (factors_pos_of_validate h)).run hops
  refine ⟨p, hp, hscaling.weights, hscaling.positive,
    fun v hv => ⟨hscaling.revert_apply hv, hscaling.apply_revert hv⟩, fun values residual hv hr => ?_⟩
  obtain ⟨p', hp', -⟩ := hscaling.update hv hr
  refine ⟨p', hp', fun hdiffer => ?_⟩
  by_contra hunchanged
  exact hdiffer (weights_of_unchanged hp' (Bool.eq_false_iff.2 hunchanged))

/-- A flat block, an empty one and one without residual, weighted by the range of their values. -/
theorem scaling_of_run_flat : ∃ p, (new ({ kind := .value } : PreconditionerConfig ℝ)).run
      [.fit [2, 0, 1], .accumulate [0, 0, 0], .update [1, 1, 4] [0, 0, 0]] = .ok p ∧
    p.weights.length = 3 ∧ ∃ ws : List ℝ, ws.length = 3 ∧ (∀ w ∈ ws, 0 < w) ∧
      p.weights = Vec.spread [2, 0, 1] ws := by
  have hvalid : ({ kind := .value } : PreconditionerConfig ℝ).validate 3 = .ok () :=
    PreconditionerConfig.validate_ok_iff.2 (.inl rfl)
  have hsuited : Suited (α := ℝ) []
      [.fit [2, 0, 1], .accumulate [0, 0, 0], .update [1, 1, 4] [0, 0, 0]] :=
    ⟨True.intro, rfl, ⟨rfl, rfl⟩, True.intro⟩
  obtain ⟨p, hp, hrows, hpositive, -⟩ := scaling_of_run hvalid hsuited
  exact ⟨p, hp, hrows, hpositive⟩

end Cosimulation.Acceleration.Preconditioner

import Cosimulation.Proofs.Preconditioner.Operations

/-!
# Freezing

The settings may limit how often weights are taken anew. The limit is looked at after an update, not
before, so one update takes place whatever the limit is: weights are frozen after `limit` updates,
and after one where the limit is zero (`frozen_iff`). From then on no operation on the same blocks
changes weights or sums (`unchanged_of_frozen`), and before that only an update changes weights
(`isUpdate_of_changed`). Without a limit they never freeze.

Constant weights are frozen from the start and are left out here.
-/

namespace Cosimulation.Acceleration.Preconditioner

variable {α : Type}

/-- Other blocks than before. -/
def Operation.isFit : Operation α → Bool
  | .fit _ => true
  | _ => false

/-- Weights taken anew. -/
def Operation.isUpdate : Operation α → Bool
  | .update _ _ => true
  | _ => false

/-- All operations are on the blocks that are there. -/
def Staying (ops : List (Operation α)) : Prop := ∀ op ∈ ops, op.isFit = false

/-- How often the weights are taken anew. -/
def updates (ops : List (Operation α)) : Nat := ops.countP Operation.isUpdate

theorem updates_cons (op : Operation α) (ops : List (Operation α)) :
    updates (op :: ops) = updates [op] + updates ops := by
  show ([op] ++ ops).countP _ = _
  exact List.countP_append

/-- Adaptive weights after `n` updates. -/
structure Counted (p : Preconditioner α) (n : Nat) : Prop where
  adaptive : p.config.kind ≠ .constant
  frozen : p.frozen = true ↔ ∃ limit, p.config.maxNonConstWindows = some limit ∧ max 1 limit ≤ n
  windows : p.frozen = false → p.windows = n

variable [Scalar α] {p p' : Preconditioner α} {op : Operation α} {ops : List (Operation α)}
  {limit n : Nat}

/-! ## One operation -/

theorem counted_fit (hkind : p.config.kind ≠ .constant) (sizes : List Nat) :
    (p.fit sizes).Counted 0 := by
  refine ⟨hkind, iff_of_false ?_ ?_, fun _ => rfl⟩
  · exact fun hfrozen => hkind (of_decide_eq_true hfrozen)
  · rintro ⟨limit, -, hle⟩
    omega

omit [Scalar α] in
theorem isExhausted_iff {config : PreconditionerConfig α} :
    isExhausted config n = true ↔ ∃ limit, config.maxNonConstWindows = some limit ∧ limit ≤ n := by
  rw [isExhausted]
  cases config.maxNonConstWindows with
  | none => simp
  | some limit => simp

theorem Counted.update (h : p.Counted n) {values residual : Vec α}
    (hp : p.update values residual = .ok p') : p'.Counted (n + 1) := by
  rcases update_parts hp with ⟨hclosed, rfl⟩ | ⟨hopen, -, -, -, hconfig, -, -, hwindows, hfrozen⟩
  · have hfrozen := hclosed.resolve_right h.adaptive
    obtain ⟨limit, hlimit, hle⟩ := h.frozen.1 hfrozen
    exact ⟨h.adaptive, iff_of_true hfrozen ⟨limit, hlimit, by omega⟩,
      fun hno => absurd (hfrozen.symm.trans hno) Bool.noConfusion⟩
  · -- the limit is compared with the number of this update
    rw [not_or, Bool.not_eq_true] at hopen
    have hn := h.windows hopen.1
    refine ⟨hconfig ▸ h.adaptive, ?_, fun _ => hn ▸ hwindows⟩
    rw [hfrozen, hn, isExhausted_iff, hconfig]
    refine exists_congr fun limit => and_congr_right fun _ => ?_
    omega

theorem Counted.after (h : p.Counted n) (hop : op.isFit = false) (hp : p.after op = .ok p') :
    p'.Counted (n + updates [op]) := by
  cases op with
  | fit => cases hop
  | accumulate residual =>
    obtain ⟨sums, rfl⟩ := accumulate_eq hp
    exact ⟨h.adaptive, h.frozen, h.windows⟩
  | update values residual => exact h.update hp
  | acknowledge =>
    obtain rfl := Except.ok.inj hp
    exact ⟨h.adaptive, h.frozen, h.windows⟩

/-- A frozen preconditioner does not change but for the note that it changed. -/
theorem after_of_frozen (hfrozen : p.frozen = true) (hop : op.isFit = false)
    (hp : p.after op = .ok p') : p' = p ∨ p' = p.acknowledge := by
  cases op with
  | fit => cases hop
  | accumulate residual =>
    refine .inl (Except.ok.inj (hp.symm.trans ?_))
    exact if_pos (.inr hfrozen)
  | update values residual =>
    refine .inl (Except.ok.inj (hp.symm.trans ?_))
    exact if_pos (.inl hfrozen)
  | acknowledge => exact .inr (Except.ok.inj hp).symm

/-- Of the operations on the same blocks only an update changes the weights. -/
theorem isUpdate_of_changed (hop : op.isFit = false) (hp : p.after op = .ok p')
    (hne : p'.weights ≠ p.weights) : op.isUpdate = true := by
  cases op with
  | fit => cases hop
  | accumulate residual =>
    obtain ⟨sums, rfl⟩ := accumulate_eq hp
    exact absurd rfl hne
  | update values residual => rfl
  | acknowledge =>
    obtain rfl := Except.ok.inj hp
    exact absurd rfl hne

/-- Nor does any of them change the blocks or the settings. -/
theorem after_fixed (hop : op.isFit = false) (hp : p.after op = .ok p') :
    p'.sizes = p.sizes ∧ p'.config = p.config := by
  cases op with
  | fit => cases hop
  | accumulate residual =>
    obtain ⟨sums, rfl⟩ := accumulate_eq hp
    exact ⟨rfl, rfl⟩
  | update values residual =>
    rcases update_parts hp with ⟨-, rfl⟩ | ⟨-, -, -, hsizes, hconfig, -⟩
    · exact ⟨rfl, rfl⟩
    · exact ⟨hsizes, hconfig⟩
  | acknowledge =>
    obtain rfl := Except.ok.inj hp
    exact ⟨rfl, rfl⟩

/-! ## Runs -/

theorem run_fixed (hops : Staying ops) : ∀ {p : Preconditioner α}, p.run ops = .ok p' →
    p'.sizes = p.sizes ∧ p'.config = p.config := by
  induction ops with
  | nil =>
    intro p hr
    obtain rfl := Except.ok.inj hr
    exact ⟨rfl, rfl⟩
  | cons op ops ih =>
    intro p hr
    obtain ⟨p₁, hp₁, hr⟩ := bind_ok hr
    obtain ⟨hsizes₁, hconfig₁⟩ := after_fixed (hops op List.mem_cons_self) hp₁
    obtain ⟨hsizes, hconfig⟩ := ih (fun o ho => hops o (List.mem_cons_of_mem _ ho)) hr
    exact ⟨hsizes.trans hsizes₁, hconfig.trans hconfig₁⟩

theorem Counted.run (hops : Staying ops) : ∀ {p : Preconditioner α} {n : Nat},
    p.Counted n → p.run ops = .ok p' → p'.Counted (n + updates ops) := by
  induction ops with
  | nil =>
    intro p n h hr
    obtain rfl := Except.ok.inj hr
    exact h
  | cons op ops ih =>
    intro p n h hr
    obtain ⟨p₁, hp₁, hr⟩ := bind_ok hr
    have hrest := ih (fun o ho => hops o (List.mem_cons_of_mem _ ho))
      (h.after (hops op List.mem_cons_self) hp₁) hr
    rwa [Nat.add_assoc, ← updates_cons] at hrest

/-- Weights are frozen when they were taken anew as often as the limit says, but at least once. -/
theorem frozen_iff (hkind : p.config.kind ≠ .constant) {sizes : List Nat} (hops : Staying ops)
    (hr : (p.fit sizes).run ops = .ok p') :
    p'.frozen = true ↔
      ∃ limit, p.config.maxNonConstWindows = some limit ∧ max 1 limit ≤ updates ops := by
  have hcounted := Counted.run hops (counted_fit hkind sizes) hr
  have hfrozen := hcounted.frozen
  rwa [Nat.zero_add, (run_fixed hops hr).2] at hfrozen

/-- Where there is a limit. -/
theorem frozen_iff_of_limit (hkind : p.config.kind ≠ .constant)
    (hlimit : p.config.maxNonConstWindows = some limit) {sizes : List Nat} (hops : Staying ops)
    (hr : (p.fit sizes).run ops = .ok p') : p'.frozen = true ↔ max 1 limit ≤ updates ops := by
  rw [frozen_iff hkind hops hr, hlimit]
  simp only [Option.some.injEq, exists_eq_left']

/-- From then on weights and sums stay. -/
theorem unchanged_of_frozen (hops : Staying ops) : ∀ {p : Preconditioner α}, p.frozen = true →
    p.run ops = .ok p' → p'.weights = p.weights ∧ p'.sums = p.sums ∧ p'.frozen = true := by
  induction ops with
  | nil =>
    intro p hfrozen hr
    obtain rfl := Except.ok.inj hr
    exact ⟨rfl, rfl, hfrozen⟩
  | cons op ops ih =>
    intro p hfrozen hr
    obtain ⟨p₁, hp₁, hr₁⟩ := bind_ok hr
    have hrest : Staying ops := fun o ho => hops o (List.mem_cons_of_mem _ ho)
    rcases after_of_frozen hfrozen (hops op List.mem_cons_self) hp₁ with rfl | rfl
    · exact ih hrest hfrozen hr₁
    · exact ih (p := p.acknowledge) hrest hfrozen hr₁

/-- Weights change with an update, and only if there were fewer before than the limit says, or none.
-/
theorem updates_lt_of_changed (hkind : p.config.kind ≠ .constant)
    (hlimit : p.config.maxNonConstWindows = some limit) {sizes : List Nat} (hops : Staying ops)
    {p₁ : Preconditioner α} (hr : (p.fit sizes).run ops = .ok p₁) (hop : op.isFit = false)
    (hp : p₁.after op = .ok p') (hne : p'.weights ≠ p₁.weights) :
    op.isUpdate = true ∧ updates ops < max 1 limit := by
  refine ⟨isUpdate_of_changed hop hp hne, Nat.lt_of_not_le fun hmany => ?_⟩
  rcases after_of_frozen ((frozen_iff_of_limit hkind hlimit hops hr).2 hmany) hop hp with rfl | rfl
  · exact hne rfl
  · exact hne rfl

end Cosimulation.Acceleration.Preconditioner

import Cosimulation.Proofs.Scheme.Renewal

/-!
# No call breaks off

A coupled participant owns the data and calls the scheme on them; between two calls it may do with
the data what it likes: put in blocks, take some out, give one iterate of a block another length. An
`Event` is a call or such a change, and `Coupled.run` lets events happen one after the other.

In exact arithmetic a scheme that was built from valid settings survives all of this: every call is
answered or refused, none breaks a contract of the schemes or of the lists they keep, and the
bookkeeping of the scheme passes its check all the while (`Coupled.run_answered`). Relaxation needs
no history for it: what it pairs up it has just checked (`Constant.perform_total`,
`Aitken.perform_total`). A quasi-Newton scheme is `Session.Exact` along some chronicle of what
happened.
-/

namespace Cosimulation

/-- Blocks whose iterates have one length can be relaxed and stored. -/
theorem DataMap.relax_store_total {α : Type} [Scalar α] {m : DataMap α} {ids : List DataId}
    (h : ∀ id ∈ ids, m.Paired id) (ω : α) :
    ∃ relaxed stored, m.relax ids ω = .ok relaxed ∧ relaxed.store ids = .ok stored := by
  obtain ⟨relaxed, hr, hl⟩ := modifyAll_total (lengthwise_relax ω) ids h
  obtain ⟨stored, hs, -⟩ := modifyAll_total lengthwise_store ids fun id hid =>
    (h id hid).congr (hl id)
  exact ⟨relaxed, stored, hr, hs⟩

namespace Acceleration

section
variable {α : Type} [Scalar α]

theorem Constant.perform_of_paired {s : Constant α} {d : DataMap α}
    (hids : ∀ id ∈ s.dataIds, d.contains id) (h : ∀ id ∈ d.keys, d.Paired id) :
    ∃ relaxed stored, d.relax d.keys s.relaxation = .ok relaxed ∧
      relaxed.store d.keys = .ok stored ∧ s.perform d = .ok ⟨.ok (), s, stored⟩ := by
  obtain ⟨relaxed, stored, hr, hs⟩ := DataMap.relax_store_total h s.relaxation
  have haccept : s.accept d = .ok () := by
    rw [Constant.accept, DataMap.requireAll_ok_iff.2 hids]
    exact DataMap.checkSizes_ok_iff.2 h
  refine ⟨relaxed, stored, hr, hs, ?_⟩
  simp only [Constant.perform, haccept, hr, hs, ok_bind]

theorem Constant.perform_total (s : Constant α) (d : DataMap α) :
    ∃ reply, s.perform d = .ok reply := by
  unfold Constant.perform
  cases ha : s.accept d with
  | error fault => exact ⟨_, rfl⟩
  | ok u =>
    obtain ⟨_, -, hsizes⟩ := bind_ok ha
    obtain ⟨relaxed, stored, hr, hs⟩ :=
      DataMap.relax_store_total (DataMap.checkSizes_ok_iff.1 hsizes) s.relaxation
    simp only [hr, hs, ok_bind]
    exact ⟨_, rfl⟩

namespace Aitken

omit [Scalar α] in
/-- A scheme compares residuals of one length only. -/
theorem length_adapt {s : Aitken α} {residual last : Vec α}
    (h : (s.adapt residual).residual = some last) : residual.length = last.length := by
  unfold adapt at h
  split at h
  next last' hlast =>
    split at h
    next hl =>
      obtain rfl := Option.some.inj (hlast.symm.trans h)
      exact hl.symm
    next => cases h
  next hnone =>
    rw [hnone] at h
    cases h

theorem nextFactor_total (s : Aitken α) (residual : Vec α) :
    ∃ factor, (s.adapt residual).nextFactor residual = .ok factor := by
  unfold nextFactor
  split
  next last hlast =>
    split
    next =>
      have hminus := Vec.minus_ok_iff.2 ⟨length_adapt hlast, rfl⟩
      rw [secantFactor, hminus]
      exact ⟨_, rfl⟩
    next => exact ⟨_, rfl⟩
  next => exact ⟨_, rfl⟩

/-- The factor of the first call of a window. -/
theorem nextFactor_first {s : Aitken α} {residual : Vec α} (h : ¬ 0 < s.iteration) :
    s.nextFactor residual = .ok (cappedFactor s.initial s.factor) := by
  unfold nextFactor
  split
  · rw [if_neg h]
  · rfl

/-- How the configured blocks differ from their previous iterates, stacked. -/
def residualOf (ids : List DataId) (d : DataMap α) : Vec α :=
  (d.stacked ids).sub (d.stackedOld ids)

theorem length_residualOf {ids : List DataId} {d : DataMap α} (h : ∀ id ∈ ids, d.Paired id) :
    (residualOf ids d).length = (d.stacked ids).length := by
  have hold := DataMap.length_stackedOld h
  rw [residualOf, Vec.length_sub hold.symm, hold]

omit [Scalar α] in
/-- A call asks for two iterates of one length, of all blocks. -/
theorem accept_ok_iff {s : Aitken α} {d : DataMap α} {values old : Vec α} :
    s.accept d = .ok (values, old) ↔ (∀ id ∈ d.keys ++ s.dataIds, d.Paired id) ∧
      values = d.stacked s.dataIds ∧ old = d.stackedOld s.dataIds := by
  rw [List.forall_mem_append, and_assoc, ← DataMap.stack_ok_iff, ← DataMap.checkSizes_ok_iff]
  constructor
  · intro h
    obtain ⟨_, hsizes, hstack⟩ := bind_ok h
    exact ⟨hsizes, hstack⟩
  · rintro ⟨hsizes, hstack⟩
    rw [accept, hsizes]
    exact hstack

theorem perform_of_paired {s : Aitken α} {d : DataMap α}
    (h : ∀ id ∈ d.keys ++ s.dataIds, d.Paired id) :
    ∃ factor relaxed stored,
      (s.adapt (residualOf s.dataIds d)).nextFactor (residualOf s.dataIds d) = .ok factor ∧
      d.relax d.keys factor = .ok relaxed ∧ relaxed.store d.keys = .ok stored ∧
      s.perform d = .ok ⟨.ok (), { s.adapt (residualOf s.dataIds d) with
        factor
        iteration := (s.adapt (residualOf s.dataIds d)).iteration + 1
        residual := some (residualOf s.dataIds d) }, stored⟩ := by
  obtain ⟨hkeys, hpaired⟩ := List.forall_mem_append.1 h
  have hminus := Vec.minus_ok_iff.2 ⟨(DataMap.length_stackedOld hpaired).symm, rfl⟩
  obtain ⟨factor, hfactor⟩ := s.nextFactor_total (residualOf s.dataIds d)
  obtain ⟨relaxed, stored, hr, hs⟩ := DataMap.relax_store_total hkeys factor
  refine ⟨factor, relaxed, stored, hfactor, hr, hs, ?_⟩
  unfold residualOf at hfactor
  simp only [perform, accept_ok_iff.2 ⟨h, rfl, rfl⟩, hminus, hfactor, hr, hs, ok_bind]
  rfl

theorem perform_of_not_paired {s : Aitken α} {d : DataMap α}
    (h : ¬ ∀ id ∈ d.keys ++ s.dataIds, d.Paired id) :
    ∃ fault, s.perform d = .ok ⟨.error fault, s, d⟩ := by
  cases ha : s.accept d with
  | error fault => exact ⟨fault, by rw [perform, ha]⟩
  | ok pair =>
    obtain ⟨values, old⟩ := pair
    exact absurd (accept_ok_iff.1 ha).1 h

theorem perform_total (s : Aitken α) (d : DataMap α) : ∃ reply, s.perform d = .ok reply := by
  by_cases h : ∀ id ∈ d.keys ++ s.dataIds, d.Paired id
  · obtain ⟨_, _, _, -, -, -, hreply⟩ := perform_of_paired h
    exact ⟨_, hreply⟩
  · obtain ⟨fault, hreply⟩ := perform_of_not_paired h
    exact ⟨_, hreply⟩

end Aitken

end

/-! ## What keeps a scheme from breaking off -/

/-- The bookkeeping of a session in exact arithmetic passes its check. -/
theorem Session.Exact.validate {σ : Session ℝ} (h : σ.Exact) : σ.scheme.validate = .ok () := by
  have htotal : σ.scheme.windows.total = σ.scheme.columns := h.sound.inStep.total_eq
  cases hst : σ.chronicle.started with
  | true =>
    have he := h.exact hst
    exact QuasiNewton.validate_of_factorizes he.factorizes he.iterates htotal
  | false =>
    obtain ⟨hhistory, hfactorization⟩ := h.idle hst
    refine QuasiNewton.validate_of_factorizes (n := 0) ?_ ?_ htotal
    · rw [hhistory, hfactorization]
      exact Factorization.empty_factorizes 0
    · rw [QuasiNewton.columns, hhistory]
      rfl

namespace Scheme

/-- A scheme in order: relaxation always is, and a quasi-Newton scheme if some chronicle tells how
it came about. -/
inductive Steady : Scheme ℝ → Prop
  | constant (s : Constant ℝ) : Steady (.constant s)
  | aitken (s : Aitken ℝ) : Steady (.aitken s)
  | iqnIls {σ : Session ℝ} (h : σ.Exact) : Steady (.iqnIls σ.scheme)

theorem Steady.validate {s : Scheme ℝ} (h : s.Steady) : s.validate = .ok () := by
  cases h with
  | constant s => rfl
  | aitken s => rfl
  | iqnIls h => exact h.validate

theorem Steady.start {s s' : Scheme ℝ} (h : s.Steady) {d : DataMap ℝ} (hs : s.start d = .ok s') :
    s'.Steady := by
  cases h with
  | constant s =>
    obtain ⟨s₁, -, rfl⟩ := map_eq_ok.1 hs
    exact .constant s₁
  | aitken s =>
    obtain ⟨s₁, -, rfl⟩ := map_eq_ok.1 hs
    exact .aitken s₁
  | iqnIls h =>
    obtain ⟨s₁, hstart, rfl⟩ := map_eq_ok.1 hs
    exact .iqnIls (Session.start_exact h hstart)

theorem Steady.perform {s : Scheme ℝ} (h : s.Steady) (d : DataMap ℝ) :
    ∃ reply, s.perform d = .ok reply ∧ reply.scheme.Steady := by
  cases h with
  | constant s =>
    obtain ⟨reply, hr⟩ := s.perform_total d
    exact ⟨_, map_eq_ok.2 ⟨reply, hr, rfl⟩, .constant _⟩
  | aitken s =>
    obtain ⟨reply, hr⟩ := s.perform_total d
    exact ⟨_, map_eq_ok.2 ⟨reply, hr, rfl⟩, .aitken _⟩
  | iqnIls h =>
    obtain ⟨reply, hr, he⟩ := h.perform_total d
    exact ⟨_, map_eq_ok.2 ⟨reply, hr, rfl⟩, .iqnIls he⟩

theorem Steady.converged {s : Scheme ℝ} (h : s.Steady) (d : DataMap ℝ) :
    ∃ reply, s.converged d = .ok reply ∧ reply.scheme.Steady := by
  cases h with
  | constant s => exact ⟨_, rfl, .constant s⟩
  | aitken s => exact ⟨_, rfl, .aitken s.converged⟩
  | iqnIls h =>
    obtain ⟨reply, hr, he⟩ := h.converged_total d
    exact ⟨_, map_eq_ok.2 ⟨reply, hr, rfl⟩, .iqnIls he⟩

theorem Steady.reset {s : Scheme ℝ} (h : s.Steady) : s.reset.Steady := by
  cases h with
  | constant s => exact .constant s
  | aitken s => exact .aitken s.reset
  | iqnIls h => exact .iqnIls (Session.reset_exact h)

/-- Valid settings are those of a scheme in order. -/
theorem Steady.build {config : Config ℝ} (h : config.validate = .ok ()) :
    ∃ built, Scheme.build config = .ok built ∧ built.Steady := by
  have hfactor : isRelaxationFactor config.initialRelaxation = true := by
    unfold Config.validate at h
    by_cases hf : isRelaxationFactor config.initialRelaxation = true
    · exact hf
    · simp [hf] at h
  unfold Scheme.build assemble Constant.new Aitken.new
  rw [h, hfactor]
  cases config.kind with
  | constant => exact ⟨_, rfl, .constant _⟩
  | aitken => exact ⟨_, rfl, .aitken _⟩
  | iqnIls => exact ⟨_, rfl, .iqnIls (Session.new_exact config)⟩

end Scheme

/-! ## A scheme and its data -/

/-- What can happen to a scheme and the data it works on: a call on the data as they are, or a
change of the data by their owner. -/
inductive Event (α : Type) where
  | start
  | perform
  | converged
  | reset
  | edit (change : DataMap α → DataMap α)

/-- A scheme and the data it works on. -/
structure Coupled (α : Type) where
  scheme : Scheme α
  data : DataMap α

namespace Coupled

section
variable {α : Type} [Scalar α]

/-- One event, and the answer to it. -/
def step (γ : Coupled α) :
    Event α → Except (Violation α) (Except (Fault α) Unit × Coupled α)
  | .start =>
    match γ.scheme.start γ.data with
    | .ok scheme => .ok (.ok (), { γ with scheme })
    | .error fault => .ok (.error fault, γ)
  | .perform => do
    let reply ← γ.scheme.perform γ.data
    .ok (reply.answer, ⟨reply.scheme, reply.data⟩)
  | .converged => do
    let reply ← γ.scheme.converged γ.data
    .ok (reply.answer, ⟨reply.scheme, reply.data⟩)
  | .reset => .ok (.ok (), { γ with scheme := γ.scheme.reset })
  | .edit change => .ok (.ok (), { γ with data := change γ.data })

/-- Several events, and the answers to them. -/
def run (γ : Coupled α) :
    List (Event α) → Except (Violation α) (List (Except (Fault α) Unit) × Coupled α)
  | [] => .ok ([], γ)
  | e :: es => do
    let (answer, γ') ← γ.step e
    let (answers, γ'') ← γ'.run es
    .ok (answer :: answers, γ'')

end

/-- Every event has an answer, and leaves the scheme in order. -/
theorem step_steady {γ : Coupled ℝ} (h : γ.scheme.Steady) (e : Event ℝ) :
    ∃ answer γ', γ.step e = .ok (answer, γ') ∧ γ'.scheme.Steady := by
  cases e with
  | start =>
    unfold step
    cases hs : γ.scheme.start γ.data with
    | error fault => exact ⟨_, _, rfl, h⟩
    | ok s => exact ⟨_, _, rfl, h.start hs⟩
  | perform =>
    obtain ⟨reply, hr, hs⟩ := h.perform γ.data
    unfold step
    rw [hr]
    exact ⟨_, _, rfl, hs⟩
  | converged =>
    obtain ⟨reply, hr, hs⟩ := h.converged γ.data
    unfold step
    rw [hr]
    exact ⟨_, _, rfl, hs⟩
  | reset => exact ⟨_, _, rfl, h.reset⟩
  | edit change => exact ⟨_, _, rfl, h⟩

theorem run_steady : ∀ (events : List (Event ℝ)) {γ : Coupled ℝ}, γ.scheme.Steady →
    ∃ answers γ', γ.run events = .ok (answers, γ') ∧ answers.length = events.length ∧
      γ'.scheme.Steady := by
  intro events
  induction events with
  | nil => exact fun {γ} h => ⟨[], γ, rfl, rfl, h⟩
  | cons e es ih =>
    intro γ h
    obtain ⟨answer, γ₁, he, h₁⟩ := step_steady h e
    obtain ⟨answers, γ', hes, hl, h'⟩ := ih h₁
    refine ⟨answer :: answers, γ', ?_, congrArg (· + 1) hl, h'⟩
    rw [run, he, ok_bind]
    dsimp only
    rw [hes]
    rfl

/-- Whatever happens to a scheme of valid settings and to its data, every call is answered or
refused and the bookkeeping of the scheme passes its check. -/
theorem run_answered {config : Config ℝ} (h : config.validate = .ok ()) :
    ∃ built, Scheme.build config = .ok built ∧
      ∀ (data : DataMap ℝ) (events : List (Event ℝ)), ∃ answers γ,
        run ⟨built, data⟩ events = .ok (answers, γ) ∧ answers.length = events.length ∧
          γ.scheme.validate = .ok () := by
  obtain ⟨built, hbuilt, hsteady⟩ := Scheme.Steady.build h
  refine ⟨built, hbuilt, fun data events => ?_⟩
  obtain ⟨answers, γ, hrun, hl, hγ⟩ := run_steady (γ := ⟨built, data⟩) events hsteady
  exact ⟨answers, γ, hrun, hl, hγ.validate⟩

open Session (single plain plain_valid)

/-- Data that change between the calls: a block whose iterates differ in length is refused, a longer
one makes the scheme start afresh, and a map without the block is refused again. -/
noncomputable def upheaval : List (Event ℝ) :=
  [.start, .perform, .edit fun _ => .ofList [(0, ⟨[1, 1], [0], 1⟩)], .perform,
    .edit fun _ => .ofList [(0, ⟨[1, 1], [0, 0], 1⟩), (1, ⟨[1], [], 1⟩)], .perform, .converged,
    .edit fun _ => .empty, .perform, .reset, .perform]

theorem run_answered_upheaval : plain.validate = .ok () ∧
    ∃ built, Scheme.build plain = .ok built ∧ ∃ answers γ,
      run ⟨built, single 1 0⟩ upheaval = .ok (answers, γ) ∧ answers.length = 11 ∧
        γ.scheme.validate = .ok () := by
  obtain ⟨built, hbuilt, hrun⟩ := run_answered plain_valid
  exact ⟨plain_valid, built, hbuilt, hrun (single 1 0) upheaval⟩

end Coupled

end Acceleration

end Cosimulation

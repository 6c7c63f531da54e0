import Cosimulation.Proofs.Factorization.Edits
import Cosimulation.Proofs.QuasiNewton.Exact

/-!
# Runs in exact arithmetic

In exact arithmetic no call breaks off: whatever is asked of a session, in whatever order and with
whatever data, is answered or refused (`run_total`). The invariant that carries this is
`Session.Exact`: the session is sound for the exact weighing, a scheme that was started is exact for
the block lengths that its chronicle records, and one that was not has no columns.

`run_weighted` says what such a run leaves. The columns of the history are the residual moves of the
visits they stand for, each component times its current weight; the factorization is the one of
these columns; and there are no more of them than the settings allow.
-/

namespace Cosimulation.Acceleration

open Factorization

/-! ## Lengths -/

namespace Chronicle

variable {χ : Chronicle ℝ} {d : DataMap ℝ}

theorem Fitting.length_stacked (h : χ.Fitting d) : (d.stacked χ.dataIds).length = χ.sizes.sum := by
  rw [DataMap.length_stacked]
  exact congrArg List.sum (List.map_congr_left fun id hid => (h id (List.mem_append_left _ hid)).2)

theorem Fitting.length_stackedOld (h : χ.Fitting d) :
    (d.stackedOld χ.dataIds).length = χ.sizes.sum := by
  rw [DataMap.length_stackedOld fun id hid => (h id (List.mem_append_left _ hid)).1]
  exact h.length_stacked

theorem Fitting.length_residual (h : χ.Fitting d) :
    ((d.stacked χ.dataIds).sub (d.stackedOld χ.dataIds)).length = χ.sizes.sum :=
  (Vec.length_sub (h.length_stacked.trans h.length_stackedOld.symm)).trans h.length_stackedOld

end Chronicle

/-- In step, the windows hold as many columns as there are. -/
theorem QuasiNewton.InStep.total_eq {W : Weighing ℝ} {χ : Chronicle ℝ} {n current : Nat}
    {s : QuasiNewton ℝ} (h : InStep W χ n current s) : s.windows.total = s.columns := by
  obtain ⟨ks, ws, -, hl⟩ := h
  refine hl.records.windows.total_eq.trans ?_
  rw [List.length_map]
  exact hl.records.residuals.length_eq

namespace Session

variable {σ : Session ℝ}

/-- The recorded lengths of the primary blocks are those of the chronicle. -/
theorem Follows.primarySizes (h : σ.Follows) (hst : σ.chronicle.started = true) :
    σ.scheme.primarySizes = σ.chronicle.sizes := by
  rw [QuasiNewton.primarySizes, Chronicle.sizes, h.dataIds, h.sizes]
  refine List.map_congr_left fun id hid => ?_
  obtain ⟨b, hb⟩ := Option.isSome_iff_exists.1 (h.complete hst id (List.mem_append_left _ hid))
  rw [lookup_filterMap Block.size (h.complete hst) (List.mem_append_left _ hid), hb, Chronicle.size,
    DataMap.valuesOf_eq hb]
  rfl

/-- The invariant of a run in exact arithmetic. -/
structure Exact (σ : Session ℝ) : Prop where
  sound : σ.Sound exactWeighing
  exact : σ.chronicle.started = true → σ.scheme.Exact σ.chronicle.sizes σ.chronicle.size
  idle : σ.chronicle.started = false →
    σ.scheme.history = .empty ∧ σ.scheme.factorization = .empty 0

/-! ## Calls that start anew -/

theorem new_exact (config : Config ℝ) : (new config).Exact :=
  ⟨new_sound _ config, fun h => absurd h Bool.false_ne_true, fun _ => ⟨rfl, rfl⟩⟩

theorem record_exact {s : QuasiNewton ℝ} {χ : Chronicle ℝ} {d : DataMap ℝ}
    (h : Sound exactWeighing ⟨s.reset.record d, { χ.turn with fitted := d }⟩)
    (hst : χ.started = true) : Exact ⟨s.reset.record d, { χ.turn with fitted := d }⟩ := by
  have hsizes := h.follows.primarySizes hst
  refine ⟨h, fun _ => QuasiNewton.exact_of_empty (Preconditioner.invertible_fit _ _) ?_ ?_ rfl,
    fun hno => absurd (hst.symm.trans hno) Bool.noConfusion⟩
  · rw [← hsizes]
    exact Preconditioner.fit_fits _ _
  · rw [← hsizes]
    rfl

theorem start_exact (h : σ.Exact) {d : DataMap ℝ} {s' : QuasiNewton ℝ}
    (hs : σ.scheme.start d = .ok s') : Exact ⟨s', σ.chronicle.note (.start d) true⟩ := by
  have hsound := start_sound h.sound hs
  obtain ⟨-, rfl⟩ := QuasiNewton.start_eq hs
  exact record_exact (χ := { σ.chronicle with
    secondaryIds := d.keys.filter fun id => !σ.chronicle.dataIds.contains id
    started := true }) hsound rfl

theorem reset_exact (h : σ.Exact) : Exact ⟨σ.scheme.reset, σ.chronicle.note .reset true⟩ := by
  refine ⟨reset_sound h.sound, fun hst => ?_, fun hno => ⟨rfl, ?_⟩⟩
  · have he := h.exact hst
    refine QuasiNewton.exact_of_empty (Preconditioner.invertible_fit _ _) ?_
      (congrArg Factorization.empty he.factorizes.rows) rfl
    have hsizes : σ.scheme.clear.primarySizes = σ.chronicle.sizes :=
      h.sound.follows.primarySizes hst
    show Preconditioner.Fits (Preconditioner.fit _ σ.scheme.clear.primarySizes) _
    rw [hsizes]
    exact Preconditioner.fit_fits _ _
  · show Factorization.empty σ.scheme.factorization.rows = _
    rw [(h.idle hno).2]
    rfl

theorem adapt_exact (h : σ.Exact) (hst : σ.chronicle.started = true) {d : DataMap ℝ}
    (hd : ∀ id ∈ σ.chronicle.trackedIds, d.contains id = true) :
    Exact ⟨σ.scheme.adapt d, σ.chronicle.meet d⟩ := by
  have hf := h.sound.follows
  rw [QuasiNewton.adapt, Chronicle.meet, hf.isRemeshed_eq hst hd, hst, Bool.true_and]
  split
  next =>
    exact record_exact
      (record_sound _ hf.config hf.secondaryIds hf.distinct hf.separate hf.started hd) hst
  next => exact h

/-! ## Calls that learn -/

/-- A call on fitting data is answered. -/
theorem Exact.step_total (h : σ.Exact) (hst : σ.chronicle.started = true) {d : DataMap ℝ}
    (hfit : σ.chronicle.Fitting d) : ∃ s' d', σ.scheme.step d (d.stacked σ.chronicle.dataIds)
        (d.stackedOld σ.chronicle.dataIds) = .ok (s', d') ∧ Exact ⟨s', σ.chronicle.visit d⟩ := by
  have hf := h.sound.follows
  obtain ⟨now, hnow⟩ : ∃ now : Snapshot ℝ, now =
      ⟨(d.stacked σ.chronicle.dataIds).sub (d.stackedOld σ.chronicle.dataIds),
        d.stacked σ.chronicle.dataIds⟩ := ⟨_, rfl⟩
  have hr : now.residual.length = σ.chronicle.sizes.sum := hnow ▸ hfit.length_residual
  have hi : now.iterate.length = σ.chronicle.sizes.sum := hnow ▸ hfit.length_stacked
  have hsec : ∀ id ∈ σ.chronicle.secondaryIds, (d.valuesOf id).length = σ.chronicle.size id :=
    fun id hid => (hfit id (List.mem_append_right _ hid)).2
  -- what the last call of the window saw has the lengths of this call, by `Follows.newest`
  obtain ⟨s₁, hl, he⟩ := (h.exact hst).learn hr hi (hf.secondaryIds ▸ hsec) fun hfirst => by
    obtain ⟨n, -, -, hfitn, hlast, hlastSec⟩ := hf.newest hfirst
    refine ⟨fun last hl => ?_, fun id hid last hl => ?_⟩
    · obtain rfl := Option.some.inj (hlast.symm.trans hl)
      exact ⟨hfitn.length_residual, hfitn.length_stacked⟩
    · rw [hf.secondaryIds] at hid
      obtain rfl := Option.some.inj ((hlastSec id hid).symm.trans hl)
      exact (hfitn id (List.mem_append_right _ hid)).2
  obtain ⟨hsame, -, hin⟩ := learn_sound h.sound hfit (hnow ▸ hl)
  have hids : s₁.config.dataIds = σ.chronicle.dataIds :=
    (congrArg Config.dataIds hsame.config).trans hf.dataIds
  have hsecIds : s₁.secondaryIds = σ.chronicle.secondaryIds :=
    hsame.secondaryIds.trans hf.secondaryIds
  have htracked : s₁.trackedIds = σ.chronicle.trackedIds := by
    rw [QuasiNewton.trackedIds, hids, hsecIds]
    rfl
  obtain ⟨coefficients, d', hresp⟩ := he.respond hr hi (htracked ▸ fun id hid => (hfit id hid).1)
    (hids.symm ▸ hfit.length_stacked) (hsecIds.symm ▸ hsec)
  have he' := he.answered coefficients now
  have hstep : σ.scheme.step d (d.stacked σ.chronicle.dataIds) (d.stackedOld σ.chronicle.dataIds) =
      .ok ({ s₁ with coefficients, last := some now, firstIteration := false }, d') := by
    have hlen := hfit.length_stacked.trans hfit.length_stackedOld.symm
    rw [QuasiNewton.step, Vec.minus_ok_iff.2 ⟨hlen, rfl⟩]
    show σ.scheme.learn d ⟨_, _⟩ >>= _ = _
    rw [← hnow, hl]
    show s₁.respond d now >>= _ = _
    rw [hresp]
    show QuasiNewton.checked _ >>= _ = _
    rw [he'.checked hin.total_eq]
    rfl
  exact ⟨_, d', hstep, step_sound h.sound hfit hstep, fun _ => he',
    fun hno => absurd (hst.symm.trans hno) Bool.noConfusion⟩

theorem Exact.perform_total (h : σ.Exact) (d : DataMap ℝ) : ∃ reply,
    σ.scheme.perform d = .ok reply ∧
    Exact ⟨reply.scheme, σ.chronicle.note (.perform d) reply.answer.isOk⟩ := by
  have hf := h.sound.follows
  obtain ⟨answer, s', ha⟩ : ∃ answer s', σ.scheme.accept d = (answer, s') := ⟨_, _, rfl⟩
  rw [QuasiNewton.perform, ha]
  rcases QuasiNewton.accept_cases ha with ⟨rfl, ⟨fault, rfl⟩, hnot⟩ | ⟨rfl, ⟨hst, hall⟩, hans⟩
  · -- refused before the scheme adapts, and noted as no remeshing
    have hmeet := hf.meet_eq hnot
    refine ⟨_, rfl, ?_⟩
    show Exact ⟨σ.scheme, σ.chronicle.meet d⟩
    rw [hmeet]
    exact h
  · rw [hf.started] at hst
    rw [hf.trackedIds] at hall
    have hadapt := adapt_exact h hst hall
    cases answer with
    | error fault => exact ⟨_, rfl, hadapt⟩
    | ok pair =>
      obtain ⟨values, old⟩ := pair
      obtain ⟨hpaired, rfl, rfl⟩ := hans values old rfl
      have hfit := Chronicle.fitting_meet hst fun id hid => hpaired id (by
        rw [hadapt.sound.follows.trackedIds, Chronicle.trackedIds_meet]
        exact hid)
      obtain ⟨s', d', hs, he⟩ :=
        hadapt.step_total ((σ.chronicle.started_meet d).trans hst) hfit
      have hids : (σ.scheme.adapt d).config.dataIds = (σ.chronicle.meet d).dataIds :=
        hadapt.sound.follows.dataIds
      refine ⟨⟨.ok (), s', d'⟩, ?_, he⟩
      show QuasiNewton.step _ d _ _ >>= _ = _
      rw [hids, hs]
      rfl

/-! ## All calls -/

theorem Exact.converged_total (h : σ.Exact) (d : DataMap ℝ) : ∃ reply,
    σ.scheme.converged d = .ok reply ∧
      Exact ⟨reply.scheme, σ.chronicle.note (.converged d) reply.answer.isOk⟩ := by
  have hf := h.sound.follows
  cases hst : σ.scheme.started with
  | false =>
    rw [QuasiNewton.converged, hst]
    exact ⟨_, rfl, h⟩
  | true =>
    have he := h.exact (hf.started ▸ hst)
    obtain ⟨ks, ws, -, hl⟩ := h.sound.inStep
    obtain ⟨ws', -, hgroups⟩ := hl.records.windows.finish
    have htotal : σ.scheme.history.windows.finish.total = σ.scheme.columns := by
      rw [hgroups.total_eq, List.length_map]
      exact hl.records.residuals.length_eq
    obtain ⟨s', hr, he'⟩ := QuasiNewton.Exact.retain
      (s := { σ.scheme with
        history := { σ.scheme.history with windows := σ.scheme.history.windows.finish } })
      ⟨he.invertible, he.fits, he.factorizes, he.iterates, he.iterate_length, he.secondary_length,
        he.bounded⟩ htotal
    have hc : σ.scheme.converged d = .ok ⟨.ok (), { s' with
        history := { s'.history with windows := s'.history.windows.begin }
        firstIteration := true
        firstWindow := false }, d⟩ := by
      rw [QuasiNewton.converged, if_neg (by rw [hst]; exact Bool.false_ne_true)]
      show QuasiNewton.retain _ >>= _ = _
      rw [hr]
      rfl
    exact ⟨_, hc, converged_sound h.sound hc, fun _ => ⟨he'.invertible, he'.fits, he'.factorizes,
      he'.iterates, he'.iterate_length, he'.secondary_length, he'.bounded⟩,
      fun hno => absurd (hst.symm.trans (hf.started.trans hno)) Bool.noConfusion⟩

/-- Every call is answered or refused, and keeps the invariant. -/
theorem Exact.call_total (h : σ.Exact) (c : Call ℝ) : ∃ σ', σ.call c = .ok σ' ∧ σ'.Exact := by
  cases c with
  | start d =>
    rw [call, QuasiNewton.call]
    cases hs : σ.scheme.start d with
    | error fault => exact ⟨_, rfl, h⟩
    | ok s' => exact ⟨_, rfl, start_exact h hs⟩
  | perform d =>
    obtain ⟨reply, hp, he⟩ := h.perform_total d
    rw [call, QuasiNewton.call, hp]
    exact ⟨_, rfl, he⟩
  | converged d =>
    obtain ⟨reply, hc, he⟩ := h.converged_total d
    rw [call, QuasiNewton.call, hc]
    exact ⟨_, rfl, he⟩
  | reset => exact ⟨_, rfl, reset_exact h⟩

/-- Every run goes through. -/
theorem run_total : ∀ (calls : List (Call ℝ)) {σ : Session ℝ}, σ.Exact →
    ∃ σ', σ.run calls = .ok σ' ∧ σ'.Exact := by
  intro calls
  induction calls with
  | nil => intro σ h; exact ⟨σ, rfl, h⟩
  | cons c cs ih =>
    intro σ h
    obtain ⟨σ₁, hc, h₁⟩ := h.call_total c
    obtain ⟨σ', hr, h'⟩ := ih h₁
    refine ⟨σ', ?_, h'⟩
    rw [run, hc]
    exact hr

/-! ## What a run leaves -/

section
variable {α : Type} [Scalar α]

/-- The columns of a scheme stand for the visits `ks`. All lists have one entry for each, and the
windows group the columns by the windows of the visits, the last one being the current window. -/
structure Aligned (σ : Session α) (ks : List Nat) : Prop where
  ascending : ks.Pairwise (· < ·)
  continues : ∀ i ∈ ks, σ.chronicle.Continues i
  residuals : σ.scheme.history.residuals.length = ks.length
  factorization : σ.scheme.factorization.columns = ks.length
  iterates : σ.scheme.history.iterates = ks.map σ.chronicle.iterateMove
  secondaryIds : σ.scheme.secondaryIds = σ.chronicle.secondaryIds
  secondary : ∀ id ∈ σ.chronicle.secondaryIds,
    σ.scheme.history.secondaryColumns id = ks.map (σ.chronicle.secondaryMove id)
  total : σ.scheme.windows.total = ks.length
  windows : ∃ ws, ws.getLast? = some σ.chronicle.window ∧
    σ.scheme.windows.Groups ws (ks.map σ.chronicle.windowOf)

theorem Sound.aligned {W : Weighing α} {σ : Session α} (h : σ.Sound W) : ∃ ks, σ.Aligned ks ∧
    List.Forall₂ (fun i x => σ.chronicle.Continues i ∧
      W.Scaled σ.scheme.preconditioner.weights (σ.chronicle.residualMove i) x) ks
      σ.scheme.history.residuals := by
  obtain ⟨ks, ws, hw, hl⟩ := h.inStep
  have hcols := hl.records.residuals.imp fun i x hx => hx.2
  refine ⟨ks, ⟨hl.ascending, fun i hi => ?_, hl.records.residuals.length_eq.symm, hl.columns,
    hl.records.iterates, h.follows.secondaryIds, fun id hid => ?_, ?_, ws, hw, hl.records.windows⟩,
    hcols⟩
  · obtain ⟨j, hj, rfl⟩ := List.mem_iff_getElem.1 hi
    exact (hcols.get hj (hcols.length_eq ▸ hj)).1
  · exact hl.records.secondary id (h.follows.secondaryIds.symm ▸ hid)
  · exact hl.records.windows.total_eq.trans (List.length_map _)

/-- After every run of calls that breaks off nowhere the lists of the history belong together. -/
theorem run_aligned (config : Config α) (calls : List (Call α)) (σ : Session α)
    (h : (new config).run calls = .ok σ) : ∃ ks, σ.Aligned ks := by
  obtain ⟨ks, ha, -⟩ := (run_sound (new_sound .silent config) h).aligned
  exact ⟨ks, ha⟩

end

/-- A data map with one block of one value. -/
def single (value old : ℝ) : DataMap ℝ := .ofList [(0, ⟨[value], [old], 1⟩)]

/-- Settings for one block, without a filter. -/
noncomputable def plain : Config ℝ :=
  { initialRelaxation := 1, filter := .none, singularityLimit := 1, dataIds := [0] }

theorem plain_valid : plain.validate = .ok () := by
  unfold Config.validate
  simp [plain, isRelaxationFactor, PreconditionerConfig.validate]

/-- Two calls of one window. -/
theorem run_aligned_two_calls : ∃ σ : Session ℝ, (new plain).run
      [.start (single 1 0), .perform (single 1 0), .perform (single 3 1)] = .ok σ ∧
    ∃ ks, σ.Aligned ks := by
  obtain ⟨σ, hr, -⟩ := run_total [.start (single 1 0), .perform (single 1 0),
    .perform (single 3 1)] (new_exact plain)
  exact ⟨σ, hr, run_aligned plain _ σ hr⟩

/-- The columns of a scheme are the residual moves of the visits `ks`, each component times its
weight, and the factorization is theirs. -/
structure Weighted (σ : Session ℝ) (ks : List Nat) : Prop extends σ.Aligned ks where
  weights : ∀ i ∈ ks,
    (σ.chronicle.residual i).length = σ.scheme.preconditioner.weights.length ∧
    (σ.chronicle.residual (i - 1)).length = σ.scheme.preconditioner.weights.length
  weighted : σ.scheme.history.residuals = ks.map fun i =>
    (σ.chronicle.residualMove i).zipWith (· * ·) σ.scheme.preconditioner.weights
  agrees : Agrees σ.scheme.factorization.rows σ.scheme.factorization σ.scheme.history.residuals

theorem Exact.agrees (h : σ.Exact) :
    Agrees σ.scheme.factorization.rows σ.scheme.factorization σ.scheme.history.residuals := by
  cases hst : σ.chronicle.started with
  | true =>
    have hf := (h.exact hst).factorizes
    rw [hf.rows]
    exact hf.agrees
  | false =>
    obtain ⟨hh, hf⟩ := h.idle hst
    rw [hh, hf]
    exact (empty_factorizes 0).agrees

theorem Exact.bounded (h : σ.Exact) : σ.scheme.columns ≤ σ.chronicle.config.maxIterationsUsed := by
  cases hst : σ.chronicle.started with
  | true =>
    rw [← h.sound.follows.config]
    exact (h.exact hst).bounded
  | false =>
    rw [QuasiNewton.columns, (h.idle hst).1]
    exact Nat.zero_le _

theorem Exact.weighted (h : σ.Exact) : ∃ ks, σ.Weighted ks := by
  obtain ⟨ks, ha, hcols⟩ := h.sound.aligned
  refine ⟨ks, ha, fun i hi => ?_, ?_, h.agrees⟩
  · obtain ⟨j, hj, rfl⟩ := List.mem_iff_getElem.1 hi
    obtain ⟨hc, hlen, -⟩ := hcols.get hj (hcols.length_eq ▸ hj)
    have hres := hc.length_residualMove.symm.trans hlen
    exact ⟨hres, hc.length_residual_prev.trans hres⟩
  · have heq : List.Forall₂ (· = ·) (ks.map fun i => (σ.chronicle.residualMove i).zipWith (· * ·)
        σ.scheme.preconditioner.weights) σ.scheme.history.residuals :=
      List.forall₂_map_left_iff.2 (hcols.imp fun i x hx => hx.2.2.symm)
    rw [List.forall₂_eq_eq_eq] at heq
    exact heq.symm

/-- Every run in exact arithmetic goes through, and the columns that it leaves are weighted with the
weights in force and factorized. -/
theorem run_weighted (config : Config ℝ) (calls : List (Call ℝ)) : ∃ σ ks,
    (new config).run calls = .ok σ ∧ σ.Weighted ks ∧
      σ.scheme.columns ≤ config.maxIterationsUsed := by
  obtain ⟨σ, hr, h⟩ := run_total calls (new_exact config)
  obtain ⟨ks, hk⟩ := h.weighted
  refine ⟨σ, ks, hr, hk, ?_⟩
  have hbound := h.bounded
  rw [run_config hr] at hbound
  exact hbound

end Session

end Cosimulation.Acceleration

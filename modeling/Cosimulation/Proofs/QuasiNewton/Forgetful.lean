import Cosimulation.Proofs.QuasiNewton.Filtering
import Cosimulation.Proofs.QuasiNewton.Retention

/-!
# Settings that leave nothing to learn from

Some settings keep every column out: no column may be used, or the filter demands that a column
contribute more than it has. `Config.Forgetful` names them. In exact arithmetic a filter with a
limit above one is satisfied by the factorization without columns only (`Filter.eq_nil`): the oldest
column has nothing before it, so its diagonal coefficient is its length, and what it has to reach is
more than that, whether it is measured by its own length or by that of all columns.

A scheme of such settings is without columns between two calls (`Blank`). Taking the weights anew
has nothing to change then, and the end of a window nothing to drop; a call may add a column, but
after a column the filter runs. So whenever coefficients are asked for there is no column to combine
(`Factorizes.solve_nil`), and the call relaxes: `Session.Exact.perform_relaxes`.
-/

namespace Cosimulation.Acceleration

open Factorization

/-- No column may be used, or the filter lets none pass. -/
def Config.Forgetful (c : Config ℝ) : Prop :=
  c.maxIterationsUsed = 0 ∨ (c.filter ≠ .none ∧ 1 < c.singularityLimit)

/-! ## A filter that lets no column pass -/

namespace Filter

variable {filter : Filter ℝ} {n : Nat} {f : Factorization ℝ} {c : Vec ℝ} {cs : List (Vec ℝ)}

/-- The diagonal coefficient of the oldest column is positive, and at most its length. -/
theorem diagonal_zero (hf : Factorizes n f (c :: cs)) :
    0 < f.diagonal 0 ∧ f.diagonal 0 ≤ ‖euclid n c‖ := by
  refine ⟨hf.agrees.diagonal 0 (Nat.succ_pos _), ?_⟩
  rw [hf.diagonal_eq (Nat.succ_pos _), ← dist_zero_right]
  exact Metric.infDist_le_dist_of_mem (Submodule.zero_mem _)

/-- No threshold asks for less than the limit times the length of the oldest column. -/
theorem threshold_zero (hf : Factorizes n f (c :: cs)) (hkind : filter.kind ≠ .none)
    (hlimit : 0 ≤ filter.limit) :
    ∃ t, filter.threshold f 0 = some t ∧ filter.limit * ‖euclid n c‖ ≤ t := by
  unfold threshold
  cases hk : filter.kind with
  | none => exact absurd hk hkind
  | qr1 =>
    refine ⟨_, rfl, mul_le_mul_of_nonneg_left ?_ hlimit⟩
    refine le_of_sq_le_sq ?_ (Real.sqrt_nonneg _)
    rw [hf.totalNorm_sq, List.map_cons, List.sum_cons]
    exact le_add_of_nonneg_right (List.sum_nonneg (List.forall_mem_map.2 fun d _ => sq_nonneg _))
  | qr2 =>
    refine ⟨_, rfl, le_of_eq ?_⟩
    rw [hf.agrees.norms 0 (Nat.succ_pos _)]
    rfl

/-- Where every column has to contribute more than it has, there is none. -/
theorem eq_nil (hf : Factorizes n f cs) (hkind : filter.kind ≠ .none) (hlimit : 1 < filter.limit)
    (h : filter.Satisfied f) : cs = [] := by
  cases cs with
  | nil => rfl
  | cons c cs =>
    obtain ⟨hpos, hle⟩ := diagonal_zero hf
    obtain ⟨t, ht, hlow⟩ := threshold_zero hf hkind (zero_le_one.trans hlimit.le)
    have hreach := h 0 (hf.columns_eq.symm ▸ Nat.succ_pos _) t ht
    rw [abs_of_pos hpos] at hreach
    have hmore := lt_mul_of_one_lt_left (hpos.trans_le hle) hlimit
    exact absurd (hlow.trans (hreach.trans hle)) (not_le.2 hmore)

end Filter

/-! ## Schemes without columns -/

namespace QuasiNewton

/-- There is no column. -/
def Blank (s : QuasiNewton ℝ) : Prop := s.history.residuals = []

variable {s s' : QuasiNewton ℝ}

/-- Without columns no weights change any. -/
theorem reweigh_blank {v r : Vec ℝ} (h : s.Blank) (hr : s.reweigh v r = .ok s') : s'.Blank := by
  unfold reweigh at hr
  split at hr
  next =>
    obtain rfl := Except.ok.inj hr
    exact h
  next =>
    obtain ⟨unscaled, hu, hr⟩ := bind_ok hr
    obtain ⟨p, -, hr⟩ := bind_ok hr
    obtain ⟨residuals, hres, hr⟩ := bind_ok hr
    rw [h] at hu
    obtain rfl := Except.ok.inj hu
    obtain rfl := Except.ok.inj hres
    dsimp only at hr
    split at hr
    next =>
      obtain ⟨⟨f, refused⟩, hf, hr⟩ := bind_ok hr
      obtain ⟨s₁, hd, hr⟩ := bind_ok hr
      obtain rfl := Except.ok.inj hr
      -- nothing is refused of nothing
      obtain ⟨-, rfl⟩ := Prod.mk.inj (Except.ok.inj hf)
      obtain ⟨history, hh, hd⟩ := bind_ok hd
      obtain rfl := Except.ok.inj hh
      obtain rfl := Except.ok.inj hd
      rfl
    next =>
      obtain rfl := Except.ok.inj hr
      rfl

theorem Blank.discharge (h : s.Blank) : s.discharge.Blank := by
  unfold QuasiNewton.discharge
  split
  next => rfl
  next => exact h

/-- A call leaves no column, or what it leaves has passed the filter. -/
theorem learn_blank {d : DataMap ℝ} {now : Snapshot ℝ} (hs : s.factorization.Shaped) (h : s.Blank)
    (hl : s.learn d now = .ok s') : s'.Blank ∨ s'.Filtered := by
  obtain ⟨p, -, hl⟩ := bind_ok hl
  obtain ⟨s₁, h₁, hl⟩ := bind_ok hl
  obtain ⟨⟨s₂, added⟩, h₂, hl⟩ := bind_ok hl
  obtain ⟨s₃, h₃, h₄⟩ := bind_ok hl
  have hblank₁ : s₁.Blank := reweigh_blank (s := { s with preconditioner := p }) h h₁
  obtain ⟨hf₃, hr₃⟩ : s₃.factorization = s₂.factorization ∧
      s₃.history.residuals = s₂.history.residuals := by
    obtain ⟨_, _, rfl⟩ := noteSecondary_only h₃
    exact ⟨rfl, rfl⟩
  have hshaped₃ : s₃.factorization.Shaped := by
    have hframed := (reweigh_framed h₁).trans (extend_framed h₂).1
    exact hf₃ ▸ (hframed.shaped hs).1
  obtain ⟨hfiltered, hsame⟩ := applyFilter_cases hshaped₃ h₄
  rcases extend_parts h₂ with ⟨rfl, hs₂⟩ | ⟨rfl, -⟩
  · obtain rfl := hsame rfl
    refine .inl (hr₃.trans ?_)
    rcases hs₂ with rfl | rfl
    · exact hblank₁
    · exact hblank₁.discharge
  · exact .inr (hfiltered rfl)

/-- With forgetful settings, neither choice leaves a column. -/
theorem Exact.blank {sizes : List Nat} {size : DataId → Nat} (he : s.Exact sizes size)
    (hf : s.config.Forgetful) (h : s.Blank ∨ s.Filtered) : s.Blank := by
  rcases hf with hmax | ⟨hkind, hlimit⟩
  · have hle : s.history.residuals.length ≤ s.config.maxIterationsUsed := he.bounded
    exact List.length_eq_zero_iff.1 (Nat.le_zero.1 (hle.trans_eq hmax))
  · rcases h with h | h
    · exact h
    · exact Filter.eq_nil he.factorizes hkind hlimit h

/-- Without columns there are no coefficients. -/
theorem solve_blank {n : Nat} (hf : Factorizes n s.factorization s.history.residuals)
    (h : s.Blank) {r : Vec ℝ} {coefficients : Option (List ℝ)}
    (hsolve : s.solve r = .ok coefficients) : coefficients = none := by
  unfold QuasiNewton.solve at hsolve
  split at hsolve
  next => exact (Except.ok.inj hsolve).symm
  next =>
    obtain ⟨scaled, -, hsolve⟩ := bind_ok hsolve
    rw [h] at hf
    exact Except.ok.inj (hsolve.symm.trans (hf.solve_nil scaled))

/-- Nothing is dropped at the end of a window where there is nothing. -/
theorem retain_blank (h : s.Blank) (hr : s.retain = .ok s') : s'.Blank := by
  unfold retain at hr
  split at hr
  next =>
    split at hr
    next =>
      obtain rfl := Except.ok.inj hr
      rfl
    next =>
      obtain rfl := Except.ok.inj hr
      exact h
  next =>
    rw [Blank, (removeWindows_trimmed hr).1.residuals, h]
    exact List.drop_nil

theorem converged_blank {d : DataMap ℝ} {reply : Reply (QuasiNewton ℝ) ℝ} (h : s.Blank)
    (hc : s.converged d = .ok reply) : reply.scheme.Blank ∧ reply.data = d := by
  unfold QuasiNewton.converged at hc
  split at hc
  next =>
    obtain rfl := Except.ok.inj hc
    exact ⟨h, rfl⟩
  next =>
    obtain ⟨s₁, hr, hc⟩ := bind_ok hc
    obtain rfl := Except.ok.inj hc
    have hblank : s₁.Blank := retain_blank (s := { s with
      history := { s.history with windows := s.history.windows.finish } }) h hr
    exact ⟨hblank, rfl⟩

theorem adapt_blank (h : s.Blank) (d : DataMap ℝ) : (s.adapt d).Blank := by
  unfold adapt
  split
  next => rfl
  next => exact h

end QuasiNewton

/-! ## Calls -/

namespace Session

variable {σ : Session ℝ}

/-- Without columns, a call that is answered relaxes all blocks, stores them and leaves no column.
-/
theorem Exact.perform_relaxes (h : σ.Exact) (hf : σ.scheme.config.Forgetful)
    (hblank : σ.scheme.Blank) {d : DataMap ℝ} {reply : Reply (QuasiNewton ℝ) ℝ}
    (hp : σ.scheme.perform d = .ok reply) (hanswer : reply.answer = .ok ()) :
    reply.scheme.Blank ∧ (∀ id ∈ σ.scheme.trackedIds, d.Paired id) ∧ ∃ relaxed,
      d.relax σ.scheme.trackedIds σ.scheme.config.initialRelaxation = .ok relaxed ∧
        relaxed.store σ.scheme.trackedIds = .ok reply.data := by
  rcases perform_cases h.sound hp with ⟨hrefused, -⟩ | ⟨-, hst, hall, hfit, hstep⟩
  · rw [hanswer] at hrefused
    cases hrefused
  have hadapt := adapt_exact h hst hall
  have hst' := (σ.chronicle.started_meet d).trans hst
  obtain ⟨s₁, coefficients, -, hlearn, hrespond, hs'⟩ := QuasiNewton.step_eq hstep
  obtain ⟨hconfig, htracked⟩ := QuasiNewton.learn_settings hlearn
  rw [(σ.scheme.adapt_settings d).1] at hconfig
  rw [(σ.scheme.adapt_settings d).2] at htracked
  have he : s₁.Exact (σ.chronicle.meet d).sizes (σ.chronicle.meet d).size := by
    obtain ⟨s', d', hsame, hexact⟩ := hadapt.step_total hst' hfit
    obtain ⟨rfl, rfl⟩ := Prod.mk.inj (Except.ok.inj (hsame.symm.trans hstep))
    have he' := hexact.exact hst'
    rw [hs'] at he'
    exact he'.of_answered
  have hblank₁ : s₁.Blank := he.blank (hconfig ▸ hf)
    (QuasiNewton.learn_blank hadapt.shaped (QuasiNewton.adapt_blank hblank d) hlearn)
  obtain ⟨relaxed, hsolve, hadvance, hstore⟩ := QuasiNewton.respond_eq hrespond
  obtain rfl := QuasiNewton.solve_blank he.factorizes hblank₁ hsolve
  rw [← hconfig, ← htracked]
  refine ⟨hs' ▸ hblank₁, fun id hid => (hfit id ?_).1, relaxed, hadvance, hstore⟩
  rw [Chronicle.trackedIds_meet, ← h.sound.follows.trackedIds, ← htracked]
  exact hid

end Session

end Cosimulation.Acceleration

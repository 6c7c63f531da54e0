import Cosimulation.Proofs.Factorization.Survivors
import Cosimulation.Proofs.QuasiNewton.Affine
import Cosimulation.Proofs.QuasiNewton.Fitting

/-!
# Which solved systems are filtered

The filter runs on calls that add a column, and on no others. Between two such calls a
factorization that satisfies the filter goes on doing so, whatever is dropped at the end of a
window, except where the weights are taken anew: then all columns change, the factorization is built
anew, and it is the next column that brings the filter back.

`learn_cases` says what one call can do. Along a run `Watched` therefore keeps that the filter is
satisfied if the weights cannot change or if the current window has a column; `perform_filtered` is
about the system that a call solves.
-/

namespace Cosimulation.Acceleration

open Factorization

/-! ## The current window -/

namespace Windows

/-- How many columns the current window has. -/
def current (w : Windows) : Nat := w.sizes.getLastD 0

theorem getLastD_shrink_le : ∀ (ns : List Nat) (i : Nat),
    (shrink ns i).getLastD 0 ≤ ns.getLastD 0 := by
  intro ns
  induction ns with
  | nil => exact fun _ => le_rfl
  | cons n ns ih =>
    intro i
    rw [shrink]
    by_cases hns : ns = []
    · subst hns
      split
      next =>
        rw [if_neg fun h => h.2 rfl]
        exact Nat.sub_le n 1
      next => exact le_rfl
    · rw [getLastD_cons_of_ne_nil n hns]
      split
      next =>
        split
        next => exact le_rfl
        next => exact (getLastD_cons_of_ne_nil _ hns).le
      next =>
        rw [getLastD_cons_of_ne_nil _ (shrink_ne_nil hns _)]
        exact ih _

/-- Removing a column takes none but its own window's. -/
theorem current_erase_le (w : Windows) (i : Nat) : (w.erase i).current ≤ w.current :=
  getLastD_shrink_le w.sizes i

@[simp]
theorem current_begin (w : Windows) : w.begin.current = 0 := List.getLastD_concat

end Windows

/-! ## The parts of a call -/

theorem History.windows_dropAll : ∀ {positions : List Nat} {h h' : History ℝ},
    h.dropAll positions = .ok h' → h'.windows.current ≤ h.windows.current := by
  intro positions
  induction positions with
  | nil =>
    intro h h' hd
    obtain rfl := Except.ok.inj hd
    exact le_rfl
  | cons i is ih =>
    intro h h' hd
    obtain ⟨g, hg, hd⟩ := bind_ok hd
    obtain ⟨k, hk, hg⟩ := bind_ok hg
    obtain rfl := Except.ok.inj hg
    obtain ⟨-, rfl⟩ := History.removeColumn_eq hk
    exact (ih hd).trans (h.windows.current_erase_le i)

/-- Taking the weights anew leaves them as they are, or changes them for good. -/
theorem Preconditioner.update_cases {p p' : Preconditioner ℝ} {v r : Vec ℝ}
    (hack : p.weightsChanged = false) (h : p.update v r = .ok p') :
    (p'.weightsChanged = false ∧ p'.weights = p.weights) ∨
    (p'.weightsChanged = true ∧ p'.weights ≠ p.weights ∧ p.config.kind ≠ .constant) := by
  unfold update at h
  split at h
  next =>
    obtain rfl := Except.ok.inj h
    exact .inl ⟨hack, rfl⟩
  next hkind =>
    obtain ⟨ws, -, h⟩ := bind_ok h
    obtain rfl := Except.ok.inj h
    rw [not_or] at hkind
    by_cases hchanged : Vec.spread p.sizes ws = p.weights
    · refine .inl ?_
      simp [hack, hchanged]
    · refine .inr ⟨?_, ?_, hkind.2⟩
      · simp [hchanged]
      · simp [hchanged]

namespace QuasiNewton

variable {s s' : QuasiNewton ℝ}

/-- The filter of the settings is satisfied. -/
def Filtered (s : QuasiNewton ℝ) : Prop := s.filter.Satisfied s.factorization

theorem filtered_of_empty {rows : Nat} (h : s.factorization = .empty rows) : s.Filtered := by
  rw [Filtered, h]
  exact Filter.satisfied_empty s.filter rows

/-- The weights are the old ones and so is the factorization, or this is the first call of a window,
the weights are other ones, and no column went into the current window. -/
theorem reweigh_cases {v r : Vec ℝ} (hack : s.preconditioner.weightsChanged = false)
    (h : s.reweigh v r = .ok s') : s'.preconditioner.weightsChanged = false ∧
      ((s'.factorization = s.factorization ∧
          s'.preconditioner.weights = s.preconditioner.weights ∧ s'.windows = s.windows) ∨
        (s.firstIteration = true ∧ s'.preconditioner.weights ≠ s.preconditioner.weights ∧
          s.preconditioner.config.kind ≠ .constant ∧
          s'.windows.current ≤ s.windows.current)) := by
  unfold reweigh at h
  split at h
  next =>
    obtain rfl := Except.ok.inj h
    exact ⟨hack, .inl ⟨rfl, rfl, rfl⟩⟩
  next hfirst =>
    rw [not_or, Bool.not_eq_true, Bool.not_eq_false'] at hfirst
    obtain ⟨unscaled, -, h⟩ := bind_ok h
    obtain ⟨p, hp, h⟩ := bind_ok h
    obtain ⟨residuals, -, h⟩ := bind_ok h
    dsimp only at h
    rcases Preconditioner.update_cases hack hp with ⟨hno, hsame⟩ | ⟨hyes, hne, hkind⟩
    · rw [if_neg (Bool.eq_false_iff.1 hno)] at h
      obtain rfl := Except.ok.inj h
      exact ⟨hno, .inl ⟨rfl, hsame, rfl⟩⟩
    · rw [if_pos hyes] at h
      obtain ⟨⟨f, refused⟩, -, h⟩ := bind_ok h
      obtain ⟨s₁, hs₁, h⟩ := bind_ok h
      obtain rfl := Except.ok.inj h
      obtain ⟨history, hd, hs₁⟩ := bind_ok hs₁
      obtain rfl := Except.ok.inj hs₁
      have hwindows := History.windows_dropAll hd
      exact ⟨rfl, .inr ⟨hfirst.1, hne, hkind, hwindows⟩⟩

/-- A call that adds no column leaves the factorization as it is or without columns. -/
theorem extend_cases {now : Snapshot ℝ} {added : Bool} (h : s.extend now = .ok (s', added)) :
    added = true ∨ s' = s ∨ s'.factorization = .empty s.factorization.rows := by
  rcases extend_parts h with ⟨-, rfl | rfl⟩ | ⟨hadded, -⟩
  · exact .inr (.inl rfl)
  · unfold discharge
    split
    next => exact .inr (.inr rfl)
    next => exact .inr (.inl rfl)
  · exact .inl hadded

/-- With a column added the filter has the last word. -/
theorem applyFilter_cases {added : Bool} (hs : s.factorization.Shaped)
    (h : s.applyFilter added = .ok s') :
    (added = true → s'.Filtered) ∧ (added = false → s' = s) := by
  cases added with
  | true =>
    obtain ⟨⟨f, removed⟩, hf, h⟩ := bind_ok h
    obtain ⟨history, -, h⟩ := bind_ok h
    obtain rfl := Except.ok.inj h
    exact ⟨fun _ => Filter.apply_satisfied hs hf, nofun⟩
  | false =>
    obtain rfl := Except.ok.inj h
    exact ⟨nofun, fun _ => rfl⟩

/-- What a call leaves satisfies the filter; or it is the factorization from before, with the same
weights; or this is the first call of a window, with other weights and no column of the window. -/
theorem learn_cases {d : DataMap ℝ} {now : Snapshot ℝ} (hs : s.factorization.Shaped)
    (hack : s.preconditioner.weightsChanged = false) (h : s.learn d now = .ok s') :
    s'.preconditioner.weightsChanged = false ∧ (s'.Filtered ∨
      (s'.factorization = s.factorization ∧
        s'.preconditioner.weights = s.preconditioner.weights ∧ s'.windows = s.windows) ∨
      (s.firstIteration = true ∧ s'.preconditioner.weights ≠ s.preconditioner.weights ∧
        s.preconditioner.config.kind ≠ .constant ∧
        s'.windows.current ≤ s.windows.current)) := by
  obtain ⟨p, hp, h⟩ := bind_ok h
  obtain ⟨s₁, h₁, h⟩ := bind_ok h
  obtain ⟨⟨s₂, added⟩, h₂, h⟩ := bind_ok h
  obtain ⟨s₃, h₃, h₄⟩ := bind_ok h
  obtain ⟨sums, rfl⟩ := Preconditioner.accumulate_eq hp
  obtain ⟨hack₁, hcases⟩ := reweigh_cases
    (s := { s with preconditioner := { s.preconditioner with sums } }) hack h₁
  have hadded := extend_cases h₂
  obtain ⟨hf₃, hp₃, hw₃⟩ : s₃.factorization = s₂.factorization ∧
      s₃.preconditioner = s₂.preconditioner ∧ s₃.windows = s₂.windows := by
    obtain ⟨_, _, rfl⟩ := noteSecondary_only h₃
    exact ⟨rfl, rfl, rfl⟩
  have hshaped : s₃.factorization.Shaped := by
    have hframed := (reweigh_framed h₁).trans (extend_framed h₂).1
    exact hf₃ ▸ (hframed.shaped hs).1
  obtain ⟨hfiltered, hsame⟩ := applyFilter_cases hshaped h₄
  have hkept : s'.preconditioner = s₁.preconditioner :=
    (applyFilter_preconditioner h₄).trans (hp₃.trans (extend_preconditioner h₂))
  refine ⟨hkept ▸ hack₁, ?_⟩
  cases added with
  | true => exact .inl (hfiltered rfl)
  | false =>
    obtain rfl := hsame rfl
    rcases hadded with hno | rfl | hempty
    · cases hno
    · rw [hf₃, hkept, hw₃]
      exact .inr hcases
    · exact .inl (filtered_of_empty (hf₃.trans hempty))

/-! ## What calls keep -/

/-- The filter is satisfied where no weights can have changed since it ran: if they never change, or
if a column of the current window is there. -/
structure Watched (s : QuasiNewton ℝ) : Prop where
  weighting : s.preconditioner.config = s.config.preconditioner
  acknowledged : s.preconditioner.weightsChanged = false
  opening : s.firstIteration = true → s.windows.current = 0
  filtered : s.config.preconditioner.kind = .constant ∨ 0 < s.windows.current → s.Filtered

theorem new_watched (config : Config ℝ) : (new config).Watched :=
  ⟨rfl, rfl, fun _ => rfl, fun _ => filtered_of_empty rfl⟩

namespace Watched

theorem reset (h : s.Watched) : s.reset.Watched :=
  ⟨h.weighting, rfl, fun _ => rfl, fun _ => filtered_of_empty rfl⟩

theorem record (h : s.Watched) (d : DataMap ℝ) : (s.reset.record d).Watched :=
  ⟨h.weighting, rfl, fun _ => rfl, fun _ => filtered_of_empty rfl⟩

theorem start (h : s.Watched) {d : DataMap ℝ} (hs : s.start d = .ok s') : s'.Watched := by
  obtain ⟨-, rfl⟩ := start_eq hs
  exact ⟨h.weighting, rfl, fun _ => rfl, fun _ => filtered_of_empty rfl⟩

theorem adapt (h : s.Watched) (d : DataMap ℝ) : (s.adapt d).Watched := by
  unfold QuasiNewton.adapt
  split
  next => exact h.record d
  next => exact h

theorem step (h : s.Watched) (hs : s.factorization.Shaped) {d d' : DataMap ℝ} {values old : Vec ℝ}
    (hstep : s.step d values old = .ok (s', d')) : s'.Watched := by
  obtain ⟨s₁, coefficients, -, hl, -, rfl⟩ := step_eq hstep
  obtain ⟨hframed, -⟩ := learn_framed hl
  obtain ⟨hack, hcases⟩ := learn_cases hs h.acknowledged hl
  have hconfig : s₁.config = s.config := hframed.setup.config
  have hweighting : s₁.preconditioner.config = s.preconditioner.config := hframed.weighting
  have hfilter : s₁.filter = s.filter := by rw [filter, filter, hconfig]
  refine ⟨hweighting.trans (h.weighting.trans (congrArg _ hconfig.symm)), hack, nofun, fun hw => ?_⟩
  have hw : s.config.preconditioner.kind = .constant ∨ 0 < s₁.windows.current := hconfig ▸ hw
  show s₁.Filtered
  rcases hcases with hdone | ⟨hsame, -, hwindows⟩ | ⟨hfirst, -, hkind, hle⟩
  · exact hdone
  · rw [Filtered, hfilter, hsame]
    exact h.filtered (hwindows ▸ hw)
  · -- the columns changed with their weights, and none is of this window
    rcases hw with hconstant | hpos
    · exact absurd ((congrArg _ h.weighting).trans hconstant) hkind
    · have hzero := h.opening hfirst
      omega

theorem perform (h : s.Watched) (hs : s.factorization.Shaped) {d : DataMap ℝ}
    {reply : Reply (QuasiNewton ℝ) ℝ} (hp : s.perform d = .ok reply) : reply.scheme.Watched := by
  unfold QuasiNewton.perform at hp
  obtain ⟨answer, s₁, ha⟩ : ∃ answer s₁, s.accept d = (answer, s₁) := ⟨_, _, rfl⟩
  rw [ha] at hp
  have h₁ : s₁.Watched ∧ s₁.factorization.Shaped := by
    rcases accept_cases ha with ⟨rfl, -⟩ | ⟨rfl, -⟩
    · exact ⟨h, hs⟩
    · refine ⟨h.adapt d, ?_⟩
      unfold QuasiNewton.adapt
      split
      next => exact empty_shaped _
      next => exact hs
  cases answer with
  | error f =>
    obtain rfl := Except.ok.inj hp
    exact h₁.1
  | ok pair =>
    obtain ⟨⟨s₂, d'⟩, hstep, hp⟩ := bind_ok hp
    obtain rfl := Except.ok.inj hp
    exact h₁.1.step h₁.2 hstep

end Watched

/-- Columns that go at the end of a window leave the filter satisfied and the weights alone. -/
theorem removeOldest_filtered {k : Nat} : ∀ {n : Nat} {s s' : QuasiNewton ℝ} {cs : List (Vec ℝ)},
    Factorizes k s.factorization cs → s.removeOldest n = .ok s' →
      (s.Filtered → s'.Filtered) ∧ ∃ cs', Factorizes k s'.factorization cs' := by
  intro n
  induction n with
  | zero =>
    intro s s' cs hf h
    obtain rfl := Except.ok.inj h
    exact ⟨id, cs, hf⟩
  | succ n ih =>
    intro s s' cs hf h
    obtain ⟨f, hd, h⟩ := bind_ok h
    obtain ⟨history, -, h⟩ := bind_ok h
    obtain ⟨-, -, -, hpos⟩ := delete_shaped hf.shaped hd
    obtain ⟨f', hd', hf'⟩ := hf.delete hpos
    obtain rfl := Except.ok.inj (hd.symm.trans hd')
    obtain ⟨hfiltered, hcs⟩ := ih (s := { s with factorization := f, history }) hf' h
    exact ⟨fun hs => hfiltered (hs.delete hf hf'), hcs⟩

theorem removeWindows_filtered {k : Nat} : ∀ {n : Nat} {s s' : QuasiNewton ℝ} {cs : List (Vec ℝ)},
    Factorizes k s.factorization cs → s.removeWindows n = .ok s' → s.Filtered → s'.Filtered := by
  intro n
  induction n with
  | zero =>
    intro s s' cs hf h
    obtain rfl := Except.ok.inj h
    exact id
  | succ n ih =>
    intro s s' cs hf h
    unfold removeWindows at h
    split at h
    next =>
      obtain rfl := Except.ok.inj h
      exact id
    next size sizes _ =>
      obtain ⟨s₁, h₁, h⟩ := bind_ok h
      obtain ⟨hfiltered₁, cs₁, hf₁⟩ := removeOldest_filtered
        (s := { s with history := { s.history with windows := ⟨sizes⟩ } }) hf h₁
      exact fun hs => ih hf₁ h (hfiltered₁ hs)

theorem retain_filtered {k : Nat} {cs : List (Vec ℝ)} (hf : Factorizes k s.factorization cs)
    (h : s.retain = .ok s') : s.Filtered → s'.Filtered := by
  unfold retain at h
  split at h
  next =>
    split at h
    next =>
      obtain rfl := Except.ok.inj h
      exact fun _ => filtered_of_empty rfl
    next =>
      obtain rfl := Except.ok.inj h
      exact id
  next => exact removeWindows_filtered hf h

theorem Watched.converged (h : s.Watched) {k : Nat} {cs : List (Vec ℝ)}
    (hf : s.started = true → Factorizes k s.factorization cs) {d : DataMap ℝ}
    {reply : Reply (QuasiNewton ℝ) ℝ} (hp : s.converged d = .ok reply) : reply.scheme.Watched := by
  unfold QuasiNewton.converged at hp
  split at hp
  next =>
    obtain rfl := Except.ok.inj hp
    exact h
  next hst =>
    rw [Bool.not_eq_true', Bool.not_eq_false] at hst
    obtain ⟨s₁, hr, hp⟩ := bind_ok hp
    obtain rfl := Except.ok.inj hp
    have hconfig : s₁.config = s.config := (retain_framed hr).setup.config
    have hfiltered := retain_filtered
      (s := { s with history := { s.history with windows := s.history.windows.finish } })
      (hf hst) hr
    have hkept := retain_preconditioner hr
    have hp₁ : s₁.preconditioner = s.preconditioner := hkept
    refine ⟨?_, ?_, fun _ => Windows.current_begin _, fun hw => hfiltered (h.filtered ?_)⟩
    · show s₁.preconditioner.config = s₁.config.preconditioner
      rw [hp₁, hconfig, h.weighting]
    · show s₁.preconditioner.weightsChanged = false
      rw [hp₁, h.acknowledged]
    · -- no column is of the window that begins
      rcases hw with hconstant | hpos
      · exact .inl (hconfig ▸ hconstant)
      · exact absurd (hpos.trans_eq (Windows.current_begin _)) (Nat.lt_irrefl 0)

/-- The first call after the history was dropped has no coefficients. -/
theorem solve_of_first {d : DataMap ℝ} {residual : Vec ℝ} {now : Snapshot ℝ} {a : List ℝ}
    (hfirst : s.firstIteration = true) (hwindow : s.firstWindow = true)
    (hl : s.learn d now = .ok s') : s'.solve residual ≠ .ok (some a) := by
  obtain ⟨hframed, -⟩ := learn_framed hl
  have hrelax : s'.relaxesOnly = true := by
    rw [relaxesOnly, hframed.setup.firstIteration, hframed.setup.firstWindow]
    show (s.firstIteration && (s.firstWindow || s'.config.forceInitialRelaxation)) = true
    rw [hfirst, hwindow]
    rfl
  rw [solve, if_pos hrelax]
  intro h
  cases h

/-- The system that a call solves is the one it leaves; and where the weights stay, it is filtered
if the one before was. -/
theorem perform_solves {d : DataMap ℝ} {reply : Reply (QuasiNewton ℝ) ℝ} {a : List ℝ}
    (hs : s.factorization.Shaped) (hack : s.preconditioner.weightsChanged = false)
    (hp : s.perform d = .ok reply) (hanswer : reply.answer = .ok ())
    (hsolved : reply.scheme.coefficients = some a) :
    (∃ r, reply.scheme.factorization.solve r = .ok (some a)) ∧
      (s.Filtered → reply.scheme.preconditioner.weights = s.preconditioner.weights →
        reply.scheme.Filtered) := by
  unfold QuasiNewton.perform at hp
  obtain ⟨answer, s₁, ha⟩ : ∃ answer s₁, s.accept d = (answer, s₁) := ⟨_, _, rfl⟩
  rw [ha] at hp
  cases answer with
  | error f =>
    obtain rfl := Except.ok.inj hp
    cases hanswer
  | ok pair =>
    obtain ⟨⟨s₂, d'⟩, hstep, hp⟩ := bind_ok hp
    obtain rfl := Except.ok.inj hp
    obtain ⟨s₃, coefficients, -, hl, hrespond, rfl⟩ := step_eq hstep
    obtain rfl : coefficients = some a := hsolved
    obtain ⟨moved, hsolve, -⟩ := respond_eq hrespond
    obtain ⟨scaled, -, hscaled⟩ := solve_eq hsolve
    refine ⟨⟨scaled, hscaled⟩, fun hfiltered hweights => ?_⟩
    have hsame : s₁ = s := by
      rcases accept_cases ha with ⟨rfl, -⟩ | ⟨rfl, -⟩
      · rfl
      · unfold adapt at hl ⊢
        split at hl
        next => exact absurd hsolve (solve_of_first rfl rfl hl)
        next hno => exact if_neg hno
    subst hsame
    have hfilter : s₃.filter = s₁.filter := by
      rw [filter, filter, show s₃.config = s₁.config from (learn_framed hl).1.setup.config]
    obtain ⟨-, hdone | ⟨hkept, -⟩ | ⟨-, hne, -⟩⟩ := learn_cases hs hack hl
    · exact hdone
    · show s₃.Filtered
      rw [Filtered, hfilter, hkept]
      exact hfiltered
    · exact absurd hweights hne

end QuasiNewton

/-! ## Runs -/

namespace Session

variable {σ σ' : Session ℝ}

theorem Exact.shaped (h : σ.Exact) : σ.scheme.factorization.Shaped := by
  cases hst : σ.chronicle.started with
  | true => exact (h.exact hst).factorizes.shaped
  | false =>
    rw [(h.idle hst).2]
    exact empty_shaped 0

theorem call_watched {c : Call ℝ} (he : σ.Exact) (h : σ.scheme.Watched) (hc : σ.call c = .ok σ') :
    σ'.scheme.Watched := by
  cases served hc with
  | started hs => exact h.start hs
  | refused => exact h
  | performed hp => exact h.perform he.shaped hp
  | converged hp =>
    exact h.converged (fun hst =>
      (he.exact (he.sound.follows.started.symm.trans hst)).factorizes) hp
  | reset => exact h.reset

theorem run_watched {calls : List (Call ℝ)} (he : σ.Exact) (h : σ.scheme.Watched)
    (hr : σ.run calls = .ok σ') : σ'.Exact ∧ σ'.scheme.Watched := by
  refine run_keeps (P := fun τ => τ.Exact ∧ τ.scheme.Watched) ?_ ⟨he, h⟩ hr
  rintro c τ τ' ⟨he, h⟩ hc
  obtain ⟨τ'', hc', he'⟩ := he.call_total c
  obtain rfl := Except.ok.inj (hc.symm.trans hc')
  exact ⟨he', call_watched he h hc⟩

end Session

/-- Along every run in exact arithmetic, the system that a call solves satisfies the filter in each
of three cases: the weights never change; or the current window has a column; or the call leaves the
weights as they are, and the system before it satisfied the filter. -/
theorem perform_filtered {config : Config ℝ} {calls : List (Call ℝ)} {σ : Session ℝ}
    (hrun : (Session.new config).run calls = .ok σ) {data : DataMap ℝ}
    {reply : Reply (QuasiNewton ℝ) ℝ} {a : List ℝ} (hperform : σ.scheme.perform data = .ok reply)
    (hanswer : reply.answer = .ok ()) (hsolved : reply.scheme.coefficients = some a)
    (hcase : config.preconditioner.kind = .constant ∨ 0 < reply.scheme.windows.current ∨
      (Filter.Satisfied ⟨config.filter, config.singularityLimit⟩ σ.scheme.factorization ∧
        reply.scheme.preconditioner.weights = σ.scheme.preconditioner.weights)) :
    (∃ r, reply.scheme.factorization.solve r = .ok (some a)) ∧
      Filter.Satisfied ⟨config.filter, config.singularityLimit⟩ reply.scheme.factorization := by
  obtain ⟨he, hw⟩ := Session.run_watched (Session.new_exact config)
    (QuasiNewton.new_watched config) hrun
  obtain ⟨hsystem, hkept⟩ :=
    QuasiNewton.perform_solves he.shaped hw.acknowledged hperform hanswer hsolved
  have hw' := hw.perform he.shaped hperform
  have hconfig : σ.scheme.config = config :=
    he.sound.follows.config.trans (Session.run_config hrun)
  have hconfig' : reply.scheme.config = config := by
    refine (Session.perform_sound he.sound hperform).follows.config.trans ?_
    exact (σ.chronicle.config_note _ _).trans (Session.run_config hrun)
  have hfiltered : reply.scheme.Filtered := by
    rcases hcase with hconstant | hcurrent | ⟨hbefore, hweights⟩
    · exact hw'.filtered (.inl (hconfig'.symm ▸ hconstant))
    · exact hw'.filtered (.inr hcurrent)
    · refine hkept ?_ hweights
      rw [QuasiNewton.Filtered, QuasiNewton.filter, hconfig]
      exact hbefore
  rw [QuasiNewton.Filtered, QuasiNewton.filter, hconfig'] at hfiltered
  exact ⟨hsystem, hfiltered⟩

/-! ## Two columns that are not at right angles -/

section

open Session (plain call_of_scheme start_exact)

/-- Settings for two blocks of one value each, with a filter and weights that are taken anew. -/
noncomputable def sieved : Config ℝ :=
  { plain with
    filter := .qr2
    singularityLimit := 0.5
    dataIds := [0, 1]
    preconditioner := { kind := .residual } }

theorem sieved_valid : sieved.validate = .ok () := by
  have hlimit : (0 : ℝ) < 0.5 := by norm_num
  unfold Config.validate
  simp [sieved, plain, isRelaxationFactor, PreconditionerConfig.validate, hlimit]

/-- The weights before any residual, which are all one. -/
noncomputable def unweighed : Preconditioner ℝ := .fit (.new sieved.preconditioner) [1, 1]

/-- The weights for a first residual of one and two. -/
noncomputable def weighed : Preconditioner ℝ :=
  { unweighed with weights := [1, 0.5], windows := 1 }

theorem unweighed_update :
    unweighed.update [1, 2] [1, 2] = .ok { weighed with weightsChanged := true } := by
  have hone : Preconditioner.invertOrOne (Vec.norm [(1 : ℝ)]) = 1 := by
    rw [norm_singleton, abs_one, Preconditioner.invertOrOne_of_nonneg zero_le_one,
      Preconditioner.vanishing]
    norm_num
  have htwo : Preconditioner.invertOrOne (Vec.norm [(2 : ℝ)]) = 0.5 := by
    rw [norm_singleton, abs_two, Preconditioner.invertOrOne_of_nonneg zero_le_two,
      Preconditioner.vanishing]
    norm_num
  have hblocks : unweighed.blockWeights [1, 2] [1, 2] = .ok [1, 0.5] :=
    congrArg₂ (fun x y => Except.ok [x, y]) hone htwo
  have hchanged : (Vec.spread unweighed.sizes [1, 0.5] == unweighed.weights) = false := by
    show (([1, 0.5] : Vec ℝ) == [1, 1]) = false
    norm_num
  rw [Preconditioner.update, if_neg (by decide), hblocks, ok_bind]
  dsimp only
  rw [hchanged]
  rfl

/-- The scheme after calls of one window. -/
noncomputable def opened (f : Factorization ℝ) (history : History ℝ) (last : Snapshot ℝ)
    (coefficients : Option (List ℝ)) : QuasiNewton ℝ :=
  ⟨sieved, [], weighed, f, history, some last, .empty, coefficients, [(0, 1), (1, 1)], false, true,
    false, true⟩

/-- The scheme before its first call. -/
noncomputable def begun : QuasiNewton ℝ :=
  ⟨sieved, [], unweighed, .empty 2, .empty, none, .empty, none, [(0, 1), (1, 1)], true, true, false,
    true⟩

/-- The first call takes the weights anew and adds no column. -/
theorem begun_learn {d : DataMap ℝ} :
    begun.learn d ⟨[1, 2], [1, 2]⟩ = .ok { begun with preconditioner := weighed } := by
  have hreweigh : begun.reweigh [1, 2] [1, 2] = .ok { begun with preconditioner := weighed } := by
    have hnone : begun.history.residuals.mapM begun.preconditioner.revert = .ok [] := rfl
    have hupdate : begun.preconditioner.update [1, 2] [1, 2] = _ := unweighed_update
    rw [QuasiNewton.reweigh, if_neg (by decide), hnone, ok_bind, hupdate, ok_bind]
    rfl
  show begun.reweigh [1, 2] [1, 2] >>= _ = _
  rw [hreweigh]
  rfl

/-- A later one adds a column. -/
theorem opened_learn {d : DataMap ℝ} {f f' : Factorization ℝ} {history : History ℝ}
    {last now column : Vec ℝ} {coefficients : Option (List ℝ)} (move : Vec ℝ)
    (hroom : history.columns < 100) (hmove : now.minus last = .ok move)
    (hlong : 1 ≤ Vec.dot move move) (hcolumn : weighed.apply move = .ok column)
    (hinsert : f.insert column = .ok (some f')) (hsatisfied : Filter.Satisfied ⟨.qr2, 0.5⟩ f') :
    (opened f history ⟨last, last⟩ coefficients).learn d ⟨now, now⟩ =
      .ok (opened f' (history.append column move) ⟨last, last⟩ coefficients) := by
  have hnorm : 1 ≤ Vec.norm move := Real.one_le_sqrt.2 hlong
  have hmoved : ¬ Vec.norm move < QuasiNewton.vanishing := by
    rw [not_lt, QuasiNewton.vanishing]
    norm_num
    linarith
  exact QuasiNewton.learn_appends rfl rfl rfl rfl rfl hroom hmove hmoved hmove hcolumn hinsert
    (Filter.apply_of_satisfied hsatisfied)

/-- With previous values of zero, the residual of a call is its values. -/
theorem perform_pair {s s' : QuasiNewton ℝ} (next : Option (List ℝ) → QuasiNewton ℝ)
    {χ : Chronicle ℝ} {x y : ℝ} (he : Session.Exact ⟨s, χ⟩) (hst : χ.started = true)
    (hids : χ.dataIds = [0, 1]) (hfit : χ.Fitting (pair (x, y) (0, 0)))
    (hlearn : s.learn (pair (x, y) (0, 0)) ⟨[x, y], [x, y]⟩ = .ok s')
    (hnext : ∀ coefficients, { s' with
      coefficients, last := some ⟨[x, y], [x, y]⟩, firstIteration := false } = next coefficients) :
    ∃ coefficients d', s'.solve [x, y] = .ok coefficients ∧
      s.perform (pair (x, y) (0, 0)) = .ok ⟨.ok (), next coefficients, d'⟩ ∧
      Session.Exact ⟨next coefficients, χ.visit (pair (x, y) (0, 0))⟩ := by
  obtain ⟨now, s₁, coefficients, d', hnow, hlearn', hsolve, hperform, he'⟩ :=
    he.perform_learning hst hfit
  obtain rfl : now = ⟨[x, y], [x, y]⟩ := by
    rw [hnow]
    dsimp only
    rw [hids]
    show (⟨[x - 0, y - 0], [x, y]⟩ : Snapshot ℝ) = _
    rw [sub_zero, sub_zero]
  obtain rfl := Except.ok.inj (hlearn'.symm.trans hlearn)
  rw [hnext] at hperform he'
  exact ⟨coefficients, d', hsolve, hperform, he'⟩

/-- Weighted, the residual moves of the window are at no right angle, and the filter leaves both. -/
theorem satisfied_both : ∃ f f' : Factorization ℝ,
    (Factorization.empty 2).insert [1, 0] = .ok (some f) ∧
      Filter.Satisfied ⟨.qr2, 0.5⟩ f ∧ f.insert [3, 4] = .ok (some f') ∧
      Filter.Satisfied ⟨.qr2, 0.5⟩ f' ∧ Factorizes 2 f' [[1, 0], [3, 4]] := by
  have hshare := refusedShare_lt
  have hx : Vec.norm [(1 : ℝ), 0] = 1 := norm_of_dot zero_le_one (by simp)
  have hy : Vec.norm [(0 : ℝ), 1] = 1 := norm_of_dot zero_le_one (by simp)
  have hfive : Vec.norm [(3 : ℝ), 4] = 5 := norm_of_dot (by norm_num) (by norm_num)
  obtain ⟨f, hinsert, hf⟩ := (empty_factorizes 2).insert_along (x := [1, 0]) (v := [1, 0]) rfl hx.le
    rfl (fun _ hc => absurd hc List.not_mem_nil) (by norm_num [hx]; linarith)
  obtain ⟨f', hinsert', hf'⟩ := hf.insert_along (x := [0, 1]) (v := [3, 4]) rfl hy.le rfl (by simp)
    (by norm_num [hfive]; linarith)
  refine ⟨f, f', hinsert, Filter.satisfied_iff.2 fun i hi => ?_, hinsert',
    Filter.satisfied_iff.2 fun i hi => ?_, hf'⟩
  · rw [hf.columns_eq] at hi
    obtain rfl : i = 0 := Nat.lt_one_iff.1 hi
    exact Filter.met_along hf rfl hi (x := [1, 0]) rfl hx.le (by simp) (by norm_num [hx])
  · rw [hf'.columns_eq] at hi
    obtain rfl | rfl : i = 0 ∨ i = 1 := Nat.le_one_iff_eq_zero_or_eq_one.1 (Nat.le_of_lt_succ hi)
    · exact Filter.met_along hf' rfl hi (x := [1, 0]) rfl hx.le (by simp) (by norm_num [hx])
    · exact Filter.met_along hf' rfl hi (x := [0, 1]) rfl hy.le (by simp) (by norm_num [hfive])

/-- The third call of the window solves with both columns, in weights that are not those it began
with. -/
theorem perform_filtered_two_columns : ∃ (σ : Session ℝ) (reply : Reply (QuasiNewton ℝ) ℝ)
    (a : List ℝ), sieved.validate = .ok () ∧
      (Session.new sieved).run [.start (pair (1, 2) (0, 0)), .perform (pair (1, 2) (0, 0)),
        .perform (pair (2, 2) (0, 0))] = .ok σ ∧
      σ.scheme.perform (pair (5, 10) (0, 0)) = .ok reply ∧ reply.answer = .ok () ∧
      reply.scheme.coefficients = some a ∧
      reply.scheme.history.residuals = [[1, 0], [3, 4]] ∧
      reply.scheme.preconditioner.weights = [1, 0.5] ∧
      (∃ r, reply.scheme.factorization.solve r = .ok (some a)) ∧
      Filter.Satisfied ⟨.qr2, 0.5⟩ reply.scheme.factorization := by
  obtain ⟨f, f', hinsert, hsatisfied, hinsert', hsatisfied', hf'⟩ := satisfied_both
  have hstart : (QuasiNewton.new sieved).start (pair (1, 2) (0, 0)) = .ok begun := rfl
  have he := start_exact (σ := .new sieved) (Session.new_exact sieved) hstart
  have hfit : ∀ values : ℝ × ℝ, Chronicle.Fitting _ (pair values (0, 0)) := fun values =>
    fitting_pair (χ := (Chronicle.empty sieved).note (.start (pair (1, 2) (0, 0))) true) rfl rfl rfl
      values (0, 0)
  obtain ⟨c₁, d₁, -, hperform₁, he₁⟩ := perform_pair (opened (.empty 2) .empty _) he rfl rfl
    (hfit _) begun_learn fun _ => rfl
  obtain ⟨c₂, d₂, -, hperform₂, he₂⟩ := perform_pair (opened f (.append .empty [1, 0] [1, 0]) _) he₁
    rfl rfl (hfit (2, 2)) (opened_learn [1, 0] Nat.ofNat_pos
      (congrArg Except.ok (by norm_num [Vec.sub])) (by simp)
      (congrArg Except.ok (by norm_num [weighed])) hinsert hsatisfied) fun _ => rfl
  obtain ⟨c₃, d₃, hsolve, hperform₃, -⟩ := perform_pair (opened f' _ _) he₂
    rfl rfl (hfit (5, 10)) (opened_learn [3, 8] Nat.one_lt_ofNat
      (congrArg Except.ok (by norm_num [Vec.sub])) (by norm_num)
      (congrArg Except.ok (by norm_num [weighed])) hinsert' hsatisfied') fun _ => rfl
  obtain ⟨a, ha, -⟩ := hf'.solve_normal (r := [5 * 1, 10 * 0.5]) (List.cons_ne_nil _ _) rfl
  obtain rfl : c₃ = some a := Except.ok.inj (hsolve.symm.trans ha)
  obtain ⟨σ, hrun, hperform⟩ : ∃ σ : Session ℝ,
      (Session.new sieved).run [.start (pair (1, 2) (0, 0)), .perform (pair (1, 2) (0, 0)),
        .perform (pair (2, 2) (0, 0))] = .ok σ ∧
      σ.scheme.perform (pair (5, 10) (0, 0)) = .ok ⟨.ok (), opened f' _ _ (some a), d₃⟩ := by
    simp only [Session.run, Session.call, Session.new, QuasiNewton.call, hstart, hperform₁,
      hperform₂, ok_bind]
    exact ⟨_, rfl, hperform₃⟩
  exact ⟨σ, _, a, sieved_valid, hrun, hperform, rfl, rfl, rfl, rfl,
    perform_filtered hrun hperform rfl rfl (.inr (.inl Nat.two_pos))⟩

end

end Cosimulation.Acceleration

import Cosimulation.Proofs.QuasiNewton.Retention

/-!
# Windows without columns

A window that ends without a column is not kept, and a finished window whose last column is removed
goes. So a finished window holds a column, whether windows are reused or the columns of the last one
stay until the next has one of its own.

Settings that keep nothing (`Config.Discards`) are the exception. At the end of a window they drop
the history, which leaves an empty current window, and the next window is begun on top of that one.
From the first end of a window on there is one finished window, then, and it is empty; it goes when
a start, a reset or a remeshing begins the history anew.

`finished_occupied` says this for all runs. The invariant is `QuasiNewton.Occupied`; a call keeps it
because what is said of the sizes is `Stable`.
-/

namespace Cosimulation.Acceleration

variable {α : Type}

/-- No column outlives its window: none is reused, and each window begins with relaxation. -/
def Config.Discards (c : Config α) : Prop :=
  c.timestepsReused = 0 ∧ c.forceInitialRelaxation = true

/-- There is a current window, and each finished window holds a column; but settings that keep
nothing leave an empty one once a window was finished. -/
structure Config.Occupies (c : Config α) (firstWindow pending : Bool) (w : Windows) : Prop where
  current : w.sizes ≠ []
  holding : ¬ c.Discards → ∀ n ∈ w.sizes.dropLast, 0 < n
  leaving : c.Discards → w.sizes.dropLast = if firstWindow then [] else [0]
  settled : c.Discards → pending = false

namespace Config

variable (c : Config α)

theorem occupies_fresh (pending : Bool) (h : c.Discards → pending = false) :
    c.Occupies true pending .fresh :=
  ⟨List.cons_ne_nil _ _, fun _ _ hn => absurd hn List.not_mem_nil, fun _ => rfl, h⟩

theorem occupies_stable (firstWindow : Bool) : QuasiNewton.Stable (c.Occupies firstWindow) where
  push {_ w} h := by
    refine ⟨Windows.grow_ne_nil _, fun hc => ?_, fun hc => ?_, h.settled⟩
    · exact (Windows.dropLast_grow w.sizes).symm ▸ h.holding hc
    · exact (Windows.dropLast_grow w.sizes).trans (h.leaving hc)
  erase {_ w} i h := by
    refine ⟨Windows.shrink_ne_nil h.current i,
      fun hc => Windows.holding_shrink (h.holding hc) i, fun hc => ?_, h.settled⟩
    have hleaving := h.leaving hc
    refine (Windows.dropLast_shrink (fun n hn => ?_) i).trans hleaving
    rw [hleaving] at hn
    split at hn
    next => exact absurd hn List.not_mem_nil
    next => exact List.mem_singleton.1 hn
  discharge h := by
    -- nothing is pending under settings that keep nothing
    have hkept : ¬ c.Discards := fun hc => Bool.noConfusion (h.settled hc)
    exact ⟨List.cons_ne_nil _ _, fun _ _ hn => absurd hn List.not_mem_nil,
      fun hc => absurd hc hkept, fun _ => rfl⟩

end Config

namespace QuasiNewton

variable {s s' : QuasiNewton α}

/-- The windows of a scheme are those that its settings leave, and there are none but the first
before the start. -/
structure Occupied (s : QuasiNewton α) : Prop where
  occupies : s.config.Occupies s.firstWindow s.pendingClear s.windows
  idle : s.started = false → s.windows = .fresh

namespace Occupied

theorem of_fresh (hwindow : s.firstWindow = true) (hp : s.pendingClear = false)
    (hw : s.windows = .fresh) : s.Occupied := by
  refine ⟨?_, fun _ => hw⟩
  rw [hwindow, hw]
  exact s.config.occupies_fresh _ fun _ => hp

variable [Scalar α]

theorem adapt (h : s.Occupied) (d : DataMap α) : (s.adapt d).Occupied := by
  unfold QuasiNewton.adapt
  split
  next => exact of_fresh rfl rfl rfl
  next => exact h

theorem step (h : s.Occupied) (hst : s.started = true) {d d' : DataMap α} {values old : Vec α}
    (hs : s.step d values old = .ok (s', d')) : s'.Occupied := by
  obtain ⟨s₁, coefficients, -, hl, -, rfl⟩ := step_eq hs
  have hsetup := (learn_framed hl).1.setup
  obtain ⟨-, hs₁⟩ := learn_stable (s.config.occupies_stable s.firstWindow) h.occupies hl
  refine ⟨?_, fun hno => absurd (hsetup.started.trans hst) (hno ▸ Bool.false_ne_true)⟩
  show s₁.config.Occupies s₁.firstWindow s₁.pendingClear s₁.windows
  rw [show s₁.config = s.config from hsetup.config,
    show s₁.firstWindow = s.firstWindow from hsetup.firstWindow]
  exact hs₁

/-! ## The end of a window -/

/-- What is retained holds columns, or it is the empty window that a dropped history leaves. -/
theorem retain (h : s.Occupied) (hr : QuasiNewton.retain { s with
      history := { s.history with windows := s.history.windows.finish } } = .ok s') :
    (¬ s.config.Discards → ∀ n ∈ s'.windows.sizes, 0 < n) ∧
    (s.config.Discards → s'.windows.sizes = [0] ∧ s'.pendingClear = false) := by
  unfold QuasiNewton.retain at hr
  split at hr
  next hT =>
    split at hr
    next hforce =>
      obtain rfl := Except.ok.inj hr
      exact ⟨fun hkept => absurd ⟨hT, hforce⟩ hkept,
        fun hdiscards => ⟨rfl, h.occupies.settled hdiscards⟩⟩
    next hforce =>
      obtain rfl := Except.ok.inj hr
      exact ⟨fun hkept => Windows.holding_finish (h.occupies.holding hkept),
        fun hdiscards => absurd hdiscards.2 hforce⟩
  next hT =>
    have hleft := (removeWindows_trimmed hr).2
    refine ⟨fun hkept n hn => ?_, fun hdiscards => absurd hdiscards.1 hT⟩
    rw [hleft] at hn
    exact Windows.holding_finish (h.occupies.holding hkept) n (List.mem_of_mem_drop hn)

theorem converged (h : s.Occupied) {d : DataMap α} {r : Reply (QuasiNewton α) α}
    (hc : s.converged d = .ok r) :
    r.scheme.Occupied ∧ r.scheme.windows.sizes.getLast? = some 0 := by
  rcases converged_eq hc with ⟨hst, -, hs⟩ | ⟨hst, -, s₁, hr, hs⟩
  · rw [hs, h.idle hst]
    exact ⟨h, rfl⟩
  have hsetup := (retain_framed hr).setup
  have hconfig : s₁.config = s.config := hsetup.config
  obtain ⟨hkept, hdiscarded⟩ := h.retain hr
  have hlast : (s₁.windows.sizes ++ [0]).dropLast = s₁.windows.sizes := List.dropLast_concat
  rw [hs]
  refine ⟨⟨⟨?_, ?_, ?_, ?_⟩, fun hno => ?_⟩, List.getLast?_concat⟩
  · exact List.append_ne_nil_of_right_ne_nil _ (List.cons_ne_nil _ _)
  · rw [hconfig]
    exact fun hk => hlast.symm ▸ hkept hk
  · rw [hconfig]
    exact fun hd => hlast.trans (hdiscarded hd).1
  · rw [hconfig]
    exact fun hd => (hdiscarded hd).2
  · exact absurd (hno.symm.trans (hsetup.started.trans hst)) Bool.false_ne_true

end Occupied

end QuasiNewton

/-! ## Runs -/

namespace Session

variable [Scalar α] {σ σ' : Session α}

theorem call_occupied {c : Call α} (h : σ.scheme.Occupied) (hc : σ.call c = .ok σ') :
    σ'.scheme.Occupied := by
  cases served hc with
  | started hs =>
    obtain ⟨-, rfl⟩ := QuasiNewton.start_eq hs
    exact .of_fresh rfl rfl rfl
  | refused => exact h
  | performed hp =>
    exact QuasiNewton.perform_keeps h (fun _ _ => h.adapt _) (fun h₁ hst hs => h₁.step hst hs) hp
  | converged hp => exact (h.converged hp).1
  | reset => exact .of_fresh rfl rfl rfl

theorem run_occupied {calls : List (Call α)} (h : σ.scheme.Occupied) (hr : σ.run calls = .ok σ') :
    σ'.scheme.Occupied :=
  run_keeps (P := fun τ => τ.scheme.Occupied) call_occupied h hr

end Session

/-- After every run of calls that breaks off nowhere there is a current window, and it is empty if
the next call ends a window. Each finished window holds a column, unless the settings keep nothing;
these leave one finished window, an empty one, once a window was finished since the last start,
reset or remeshing. -/
theorem finished_occupied [Scalar α] (config : Config α) (calls : List (Call α)) (σ : Session α)
    (h : (Session.new config).run calls = .ok σ) :
    σ.scheme.windows.sizes ≠ [] ∧
    (¬ config.Discards → ∀ n ∈ σ.scheme.windows.sizes.dropLast, 0 < n) ∧
    (config.Discards →
      σ.scheme.windows.sizes.dropLast = if σ.scheme.firstWindow then [] else [0]) ∧
    ∀ d σ', σ.call (.converged d) = .ok σ' → σ'.scheme.windows.sizes.getLast? = some 0 := by
  have hconfig : σ.scheme.config = config :=
    (Session.run_sound (Session.new_sound .silent config) h).follows.config.trans
      (Session.run_config h)
  have hoccupied := Session.run_occupied (.of_fresh rfl rfl rfl) h
  have hoccupies := hoccupied.occupies
  rw [hconfig] at hoccupies
  refine ⟨hoccupies.current, hoccupies.holding, hoccupies.leaving, fun d σ' hc => ?_⟩
  cases Session.served hc with
  | converged hp => exact (hoccupied.converged hp).2

open Session (single plain)

/-- Settings that keep nothing. -/
noncomputable def discarding : Config ℝ :=
  { plain with timestepsReused := 0, forceInitialRelaxation := true }

/-- A window without a call leaves an empty one all the same. -/
theorem finished_occupied_discarding : ∃ σ : Session ℝ, discarding.Discards ∧
    (Session.new discarding).run [.start (single 1 0), .converged (single 1 0)] = .ok σ ∧
    σ.scheme.windows.sizes.dropLast = [0] := by
  refine ⟨_, ⟨rfl, rfl⟩, rfl, ?_⟩
  exact (finished_occupied discarding [.start (single 1 0), .converged (single 1 0)] _ rfl).2.2.1
    ⟨rfl, rfl⟩

end Cosimulation.Acceleration

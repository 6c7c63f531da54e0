import Cosimulation.Proofs.QuasiNewton.Openings

/-!
# Calls on data that fit

In exact arithmetic a session that was started answers every call whose data have all its blocks, in
the lengths that count, and every end of a window (`Exact.call_fitting`). None of these calls renews
the scheme, so a run of them is taken down call by call, each leaving its mark
(`run_started`).
-/

namespace Cosimulation.Acceleration

variable {α : Type}

/-- A call with data that fit, or the end of a window. -/
def Call.Fits (χ : Chronicle α) : Call α → Prop
  | .perform d => χ.Fitting d
  | .converged _ => True
  | _ => False

/-- What such a call leaves. -/
def Call.mark : Call α → Mark
  | .perform _ => .visited
  | _ => .turned

namespace Chronicle

variable {χ : Chronicle α} {d : DataMap α}

/-- Data that fit are no remeshing. -/
theorem Fitting.not_remeshed (h : χ.Fitting d) : χ.isRemeshed d = false := by
  rw [isRemeshed, Bool.and_eq_false_iff]
  refine .inr (List.any_eq_false.2 fun id hid => ?_)
  rw [(h id hid).2, bne_iff_ne]
  exact fun hne => hne rfl

theorem Fitting.meet_eq (h : χ.Fitting d) : χ.meet d = χ := by
  rw [meet, h.not_remeshed, Bool.and_false]
  rfl

theorem Fitting.arrival_eq (h : χ.Fitting d) : χ.arrival d = [] := by
  rw [arrival, h.not_remeshed, Bool.and_false]
  rfl

/-- Calls that fit go on fitting after one of them. -/
theorem fits_note {c c' : Call α} (hc : c.Fits χ) (hc' : c'.Fits χ) :
    c'.Fits (χ.note c true) := by
  cases c with
  | start => exact hc.elim
  | perform d =>
    rw [note, Fitting.meet_eq hc]
    exact hc'
  | converged => exact hc'
  | reset => exact hc.elim

end Chronicle

namespace Session

variable {σ : Session ℝ}

theorem Exact.accept_fitting (h : σ.Exact) (hst : σ.chronicle.started = true) {d : DataMap ℝ}
    (hfit : σ.chronicle.Fitting d) : σ.scheme.accept d =
      (.ok (d.stacked σ.chronicle.dataIds, d.stackedOld σ.chronicle.dataIds), σ.scheme) := by
  have hf := h.sound.follows
  have hcontains : ∀ id ∈ σ.chronicle.trackedIds, d.contains id = true := fun id hid => by
    obtain ⟨b, hb, -⟩ := (hfit id hid).1
    exact Option.isSome_iff_exists.2 ⟨b, hb⟩
  have hadapt : σ.scheme.adapt d = σ.scheme := by
    rw [QuasiNewton.adapt, hf.isRemeshed_eq hst hcontains, hfit.not_remeshed]
    rfl
  rw [QuasiNewton.accept, hf.started, hst, hf.trackedIds, DataMap.requireAll_ok_iff.2 hcontains,
    hadapt]
  dsimp only [Bool.not_true]
  rw [hf.secondaryIds, DataMap.checkSizes_ok_iff.2 fun id hid =>
    (hfit id (List.mem_append_right _ hid)).1, hf.dataIds,
    DataMap.stack_ok_iff.2 ⟨fun id hid => (hfit id (List.mem_append_left _ hid)).1, rfl, rfl⟩]
  rfl

/-- A call on data that fit is answered by what it learns and what it then solves. -/
theorem Exact.perform_learning (h : σ.Exact) (hst : σ.chronicle.started = true) {d : DataMap ℝ}
    (hfit : σ.chronicle.Fitting d) : ∃ (now : Snapshot ℝ) (s : QuasiNewton ℝ)
      (coefficients : Option (List ℝ)) (d' : DataMap ℝ),
      now = ⟨(d.stacked σ.chronicle.dataIds).sub (d.stackedOld σ.chronicle.dataIds),
        d.stacked σ.chronicle.dataIds⟩ ∧
      σ.scheme.learn d now = .ok s ∧ s.solve now.residual = .ok coefficients ∧
      σ.scheme.perform d =
        .ok ⟨.ok (), { s with coefficients, last := some now, firstIteration := false }, d'⟩ ∧
      Exact ⟨{ s with coefficients, last := some now, firstIteration := false },
        σ.chronicle.visit d⟩ := by
  obtain ⟨s', d', hs, he⟩ := h.step_total hst hfit
  obtain ⟨s, coefficients, -, hlearn, hrespond, rfl⟩ := QuasiNewton.step_eq hs
  obtain ⟨-, hsolve, -⟩ := QuasiNewton.respond_eq hrespond
  refine ⟨_, s, coefficients, d', rfl, hlearn, hsolve, ?_, he⟩
  rw [QuasiNewton.perform, h.accept_fitting hst hfit]
  show QuasiNewton.step _ d _ _ >>= _ = _
  rw [hs]
  rfl

theorem Exact.perform_fitting (h : σ.Exact) (hst : σ.chronicle.started = true) {d : DataMap ℝ}
    (hfit : σ.chronicle.Fitting d) : ∃ reply, σ.scheme.perform d = .ok reply ∧
      reply.answer = .ok () ∧ Exact ⟨reply.scheme, σ.chronicle.visit d⟩ := by
  obtain ⟨now, s, coefficients, d', -, -, -, hperform, he⟩ := h.perform_learning hst hfit
  exact ⟨_, hperform, rfl, he⟩

theorem Exact.call_fitting (h : σ.Exact) (hst : σ.chronicle.started = true) {c : Call ℝ}
    (hc : c.Fits σ.chronicle) : ∃ s', σ.scheme.call c = .ok (.ok (), s') ∧
      Exact ⟨s', σ.chronicle.note c true⟩ ∧ (σ.chronicle.note c true).started = true ∧
      σ.chronicle.marks c true = [c.mark] := by
  cases c with
  | start => exact hc.elim
  | perform d =>
    have hfit : σ.chronicle.Fitting d := hc
    obtain ⟨⟨_, s', d'⟩, hp, rfl, he⟩ := h.perform_fitting hst hfit
    rw [Chronicle.note, hfit.meet_eq, Chronicle.marks, hfit.arrival_eq, QuasiNewton.call, hp]
    exact ⟨s', rfl, he, hst, rfl⟩
  | converged d =>
    obtain ⟨reply, hp, he⟩ := h.converged_total d
    have hanswered : reply.answer = .ok () := by
      rw [QuasiNewton.converged, h.sound.follows.started, hst] at hp
      obtain ⟨s₁, -, hp⟩ := bind_ok hp
      obtain rfl := Except.ok.inj hp
      rfl
    rw [hanswered] at he
    refine ⟨reply.scheme, ?_, he, hst, rfl⟩
    rw [QuasiNewton.call, hp, ← hanswered]
    rfl
  | reset => exact hc.elim

/-- A run of calls that fit. -/
theorem Exact.run_fitting {calls : List (Call ℝ)} : ∀ {σ : Session ℝ}, σ.Exact →
    σ.chronicle.started = true → (∀ c ∈ calls, c.Fits σ.chronicle) →
      ∃ s, σ.run calls = .ok ⟨s, calls.foldl (fun χ c => χ.note c true) σ.chronicle⟩ ∧
        Exact ⟨s, calls.foldl (fun χ c => χ.note c true) σ.chronicle⟩ ∧
        σ.marks calls = calls.map Call.mark := by
  induction calls with
  | nil => exact fun h _ _ => ⟨_, rfl, h, rfl⟩
  | cons c cs ih =>
    intro σ h hst hfits
    obtain ⟨hc, hcs⟩ := List.forall_mem_cons.1 hfits
    obtain ⟨s₁, hcall, h₁, hst₁, hmark⟩ := h.call_fitting hst hc
    obtain ⟨s, hrun, he, hmarks⟩ := ih h₁ hst₁ fun c' hc' => Chronicle.fits_note hc (hcs c' hc')
    refine ⟨s, ?_, he, ?_⟩
    · rw [run, call_of_scheme hcall]
      exact hrun
    · rw [marks, hcall]
      show σ.chronicle.marks c true ++ marks ⟨s₁, σ.chronicle.note c true⟩ cs = _
      rw [hmark, hmarks]
      rfl

/-- A session that is started and whose calls fit. -/
theorem run_started (config : Config ℝ) {d : DataMap ℝ}
    (hd : ∀ id ∈ config.dataIds, d.contains id = true) {calls : List (Call ℝ)}
    (hfits : ∀ c ∈ calls, c.Fits ((Chronicle.empty config).note (.start d) true)) :
    ∃ s, (new config).run (.start d :: calls) = .ok ⟨s, calls.foldl (fun χ c => χ.note c true)
        ((Chronicle.empty config).note (.start d) true)⟩ ∧
      Exact ⟨s, calls.foldl (fun χ c => χ.note c true)
        ((Chronicle.empty config).note (.start d) true)⟩ ∧
      (new config).marks (.start d :: calls) = .renewed :: calls.map Call.mark := by
  obtain ⟨s₀, hs₀⟩ : ∃ s₀, (QuasiNewton.new config).start d = .ok s₀ := by
    rw [QuasiNewton.start, show (QuasiNewton.new config).config.dataIds = config.dataIds from rfl,
      DataMap.requireAll_ok_iff.2 hd]
    exact ⟨_, rfl⟩
  have hcall : (new config).scheme.call (.start d) = .ok (.ok (), s₀) := by
    show QuasiNewton.call (.new config) _ = _
    rw [QuasiNewton.call, hs₀]
  obtain ⟨s, hrun, he, hmarks⟩ :=
    (start_exact (σ := new config) (new_exact config) hs₀).run_fitting rfl hfits
  refine ⟨s, ?_, he, ?_⟩
  · rw [run, call_of_scheme hcall]
    exact hrun
  · rw [marks, hcall]
    exact congrArg (Mark.renewed :: ·) hmarks

theorem fitting_single {χ : Chronicle ℝ} (hids : χ.trackedIds = [0])
    (hsize : χ.size 0 = 1) (value old : ℝ) : χ.Fitting (single value old) := by
  intro id hid
  rw [hids, List.mem_singleton] at hid
  rw [hid]
  exact ⟨⟨_, rfl, rfl⟩, hsize.symm⟩

end Session

/-- Two blocks of one value each. -/
def pair (values old : ℝ × ℝ) : DataMap ℝ :=
  .ofList [(0, ⟨[values.1], [old.1], 1⟩), (1, ⟨[values.2], [old.2], 1⟩)]

theorem fitting_pair {χ : Chronicle ℝ} (hids : χ.trackedIds = [0, 1]) (hsize : χ.size 0 = 1)
    (hsize' : χ.size 1 = 1) (values old : ℝ × ℝ) : χ.Fitting (pair values old) := by
  intro id hid
  rw [hids, List.mem_cons, List.mem_singleton] at hid
  rcases hid with rfl | rfl
  · exact ⟨⟨_, rfl, rfl⟩, hsize.symm⟩
  · exact ⟨⟨_, rfl, rfl⟩, hsize'.symm⟩

end Cosimulation.Acceleration

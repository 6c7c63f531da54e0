import Cosimulation.Proofs.QuasiNewton.Matching
import Cosimulation.Proofs.QuasiNewton.Runs

/-!
# Sessions side by side

Two sessions whose settings differ in the order of the primary blocks and in the weights, and which
are asked the same things, stay side by side (`Session.Twins`): their chronicles differ in the
settings alone, and once they are started their schemes are matched.

A start, a reset and a remeshing match the schemes anew, by fitting the preconditioners to the
blocks. A call is answered by both or refused by both, since what it asks of the data does not
depend on the order of the blocks (`perform_of_paired`, `perform_of_not_paired`). If it is answered,
the two runs saw the same data in the last call of the window, so what they learn from is relaid
(`Twins.step`).
-/

namespace Cosimulation.Acceleration

/-- Settings that differ in the order of the blocks and in the weights at most. -/
structure Config.Akin (c c' : Config ℝ) : Prop where
  dataIds : c.dataIds.Perm c'.dataIds
  nodup : c.dataIds.Nodup
  settings : c'.settings = c.settings

/-! ## What a call asks of the data -/

namespace QuasiNewton

variable {α : Type} [Scalar α] {s : QuasiNewton α} {d : DataMap α}

theorem adapt_config (s : QuasiNewton α) (d : DataMap α) : (s.adapt d).config = s.config := by
  unfold adapt
  split <;> rfl

theorem adapt_secondaryIds (s : QuasiNewton α) (d : DataMap α) :
    (s.adapt d).secondaryIds = s.secondaryIds := by
  unfold adapt
  split <;> rfl

omit [Scalar α] in
theorem contains_of_paired {id : DataId} (h : d.Paired id) : d.contains id = true := by
  obtain ⟨b, hb, -⟩ := h
  exact Option.isSome_iff_exists.2 ⟨b, hb⟩

/-- Data with all blocks in two iterates of one length are accepted. -/
theorem perform_of_paired (hst : s.started = true) (h : ∀ id ∈ s.trackedIds, d.Paired id) :
    s.perform d = ((s.adapt d).step d (d.stacked s.config.dataIds)
      (d.stackedOld s.config.dataIds)).map fun r => ⟨.ok (), r.1, r.2⟩ := by
  obtain ⟨hprimary, hsecondary⟩ := List.forall_mem_append.1 h
  have haccept : s.accept d =
      (.ok (d.stacked s.config.dataIds, d.stackedOld s.config.dataIds), s.adapt d) := by
    rw [accept, hst, DataMap.requireAll_ok_iff.2 fun id hid => contains_of_paired (h id hid)]
    simp only [Bool.not_true, Bool.false_eq_true, if_false, adapt_config, adapt_secondaryIds,
      DataMap.checkSizes_ok_iff.2 hsecondary,
      DataMap.stack_ok_iff.2 ⟨hprimary, rfl, rfl⟩]
  rw [perform, haccept]
  dsimp only
  cases (s.adapt d).step d _ _ <;> rfl

/-- Other data are refused, after the scheme adapted to them if no block is missing. -/
theorem perform_of_not_paired (h : ¬ (s.started = true ∧ ∀ id ∈ s.trackedIds, d.Paired id)) :
    ∃ fault, s.perform d = .ok ⟨.error fault,
      if s.started = true ∧ ∀ id ∈ s.trackedIds, d.contains id = true then s.adapt d else s,
      d⟩ := by
  obtain ⟨answer, s', ha⟩ : ∃ answer s', s.accept d = (answer, s') := ⟨_, _, rfl⟩
  rw [perform, ha]
  rcases accept_cases ha with ⟨rfl, ⟨fault, rfl⟩, hnot⟩ | ⟨rfl, hall, hans⟩
  · exact ⟨fault, by rw [if_neg hnot]⟩
  · cases answer with
    | error fault => exact ⟨fault, by rw [if_pos hall]⟩
    | ok pair =>
      obtain ⟨hpaired, -, -⟩ := hans pair.1 pair.2 rfl
      refine absurd ⟨hall.1, ?_⟩ h
      rwa [trackedIds, adapt_config, adapt_secondaryIds] at hpaired

/-- A scheme starts on data that have the primary blocks. -/
theorem start_ok_iff : (∃ s', s.start d = .ok s') ↔ ∀ id ∈ s.config.dataIds, d.contains id := by
  refine ⟨fun ⟨s', h⟩ => (start_eq h).1, fun h => ?_⟩
  rw [start, DataMap.requireAll_ok_iff.2 h]
  exact ⟨_, rfl⟩

end QuasiNewton

/-! ## The chronicles -/

namespace Chronicle

variable {c c' : Config ℝ} {χ : Chronicle ℝ}

theorem trackedIds_perm (hc : c.Akin c') (hχ : χ.config = c) :
    χ.trackedIds.Perm { χ with config := c' }.trackedIds := by
  rw [trackedIds, trackedIds, dataIds, dataIds, hχ]
  exact hc.dataIds.append_right _

/-- Remeshings are noticed in any order of the blocks. -/
theorem isRemeshed_config (hc : c.Akin c') (hχ : χ.config = c) (d : DataMap ℝ) :
    { χ with config := c' }.isRemeshed d = χ.isRemeshed d := by
  have hperm := trackedIds_perm hc hχ
  rw [isRemeshed, isRemeshed, hperm.all_eq, hperm.any_eq]

theorem meet_config (hc : c.Akin c') (hχ : χ.config = c) (d : DataMap ℝ) :
    { χ with config := c' }.meet d = { χ.meet d with config := c' } := by
  rw [meet, meet, isRemeshed_config hc hχ]
  show (if χ.started && χ.isRemeshed d then _ else _) = _
  split <;> rfl

end Chronicle

namespace Session

open QuasiNewton

/-- Two sessions that were asked the same. -/
structure Twins {c c' : Config ℝ} (W : Weighting c c') (σ σ' : Session ℝ) : Prop where
  exact : σ.Exact
  exact' : σ'.Exact
  config : σ.chronicle.config = c
  chronicle : σ'.chronicle = { σ.chronicle with config := c' }
  outline : σ'.scheme.outline = σ.scheme.outline
  weighting : σ.scheme.preconditioner.config = c.preconditioner
  weighting' : σ'.scheme.preconditioner.config = c'.preconditioner
  matched : σ.chronicle.started = true →
    ∃ w, Matched W σ.chronicle.size w σ.scheme σ'.scheme

variable {c c' : Config ℝ} {W : Weighting c c'} {σ σ' : Session ℝ}

theorem new_twins (hc : c.Akin c') : Twins W (new c) (new c') := by
  refine ⟨new_exact c, new_exact c', rfl, rfl, ?_, rfl, rfl,
    fun h => absurd h Bool.false_ne_true⟩
  exact congrArg (fun k : Config ℝ => (⟨k, [], .empty, none, true, true, false, false⟩ :
    Outline ℝ)) hc.settings

namespace Twins

/-! ## What can be seen of both -/

theorem coefficients (h : Twins W σ σ') : σ'.scheme.coefficients = σ.scheme.coefficients :=
  congrArg Outline.coefficients h.outline

theorem history (h : Twins W σ σ') :
    σ'.scheme.columns = σ.scheme.columns ∧ σ'.scheme.windows = σ.scheme.windows := by
  cases hst : σ.chronicle.started with
  | true =>
    obtain ⟨w, hm⟩ := h.matched hst
    exact ⟨hm.columns, hm.history.windows⟩
  | false =>
    have hst' : σ'.chronicle.started = false := by rw [h.chronicle]; exact hst
    have hh := (h.exact.idle hst).1
    have hh' := (h.exact'.idle hst').1
    rw [columns, columns, windows, windows, hh, hh']
    exact ⟨rfl, rfl⟩

theorem scheme_config (h : Twins W σ σ') : σ.scheme.config = c ∧ σ'.scheme.config = c' := by
  refine ⟨h.exact.sound.follows.config.trans h.config, ?_⟩
  rw [h.exact'.sound.follows.config, h.chronicle]

theorem started (h : Twins W σ σ') : σ'.scheme.started = σ.scheme.started :=
  congrArg Outline.started h.outline

theorem trackedIds_perm (hc : c.Akin c') (h : Twins W σ σ') :
    σ.scheme.trackedIds.Perm σ'.scheme.trackedIds := by
  have hs : σ'.scheme.secondaryIds = σ.scheme.secondaryIds :=
    congrArg Outline.secondaryIds h.outline
  rw [QuasiNewton.trackedIds, QuasiNewton.trackedIds, h.scheme_config.1, h.scheme_config.2, hs]
  exact hc.dataIds.append_right _

theorem nodup_trackedIds (hc : c.Akin c') (h : Twins W σ σ') : σ.scheme.trackedIds.Nodup := by
  have hf := h.exact.sound.follows
  rw [QuasiNewton.trackedIds, hf.secondaryIds, h.scheme_config.1]
  refine List.nodup_append.2 ⟨hc.nodup, hf.distinct, fun a ha b hb hab => ?_⟩
  have hsep := hf.separate b hb
  rw [Chronicle.dataIds, h.config] at hsep
  exact hsep (hab ▸ ha)

/-! ## Calls that start anew -/

/-- Sessions without columns whose preconditioners were just fitted to the blocks. -/
theorem of_fit (hW : W.Kept) (he : σ.Exact) (he' : σ'.Exact) (hconfig : σ.chronicle.config = c)
    (hchronicle : σ'.chronicle = { σ.chronicle with config := c' })
    (houtline : σ'.scheme.outline = σ.scheme.outline) {p p' : Preconditioner ℝ} {m m' : Nat}
    (hp : p.config = c.preconditioner) (hp' : p'.config = c'.preconditioner)
    (hs : σ.scheme.preconditioner = p.fit σ.scheme.primarySizes)
    (hs' : σ'.scheme.preconditioner = p'.fit σ'.scheme.primarySizes)
    (hh : σ.scheme.history = .empty) (hh' : σ'.scheme.history = .empty)
    (hf : σ.scheme.factorization = .empty m) (hf' : σ'.scheme.factorization = .empty m') :
    Twins W σ σ' := by
  refine ⟨he, he', hconfig, hchronicle, houtline, hs ▸ hp, hs' ▸ hp', fun hst => ?_⟩
  have hst' : σ'.chronicle.started = true := by rw [hchronicle]; exact hst
  rw [he.sound.follows.primarySizes hst, Chronicle.sizes, Chronicle.dataIds, hconfig] at hs
  rw [he'.sound.follows.primarySizes hst', hchronicle] at hs'
  obtain ⟨w, hw⟩ := hW.fit σ.chronicle.size hp hp'
  refine ⟨w, houtline, ?_, ?_, ?_⟩
  · rw [hs, hs']
    exact hw
  · rw [hh, hh']
    exact History.empty_tied _ _ w
  · rw [hf, hf']
    exact Factorization.empty_similar _ _ w m m'

theorem reset (hW : W.Kept) (h : Twins W σ σ') :
    Twins W ⟨σ.scheme.reset, σ.chronicle.note .reset true⟩
      ⟨σ'.scheme.reset, σ'.chronicle.note .reset true⟩ := by
  refine of_fit hW (reset_exact h.exact) (reset_exact h.exact') h.config ?_ ?_ h.weighting
    h.weighting' rfl rfl rfl rfl rfl rfl
  · show σ'.chronicle.turn = { σ.chronicle.turn with config := c' }
    rw [h.chronicle]
    rfl
  · exact congrArg (fun o => { o with
      coefficients := none, firstIteration := true, firstWindow := true, pendingClear := false })
      h.outline

/-- Both start on the data, or neither does. -/
theorem start (hW : W.Kept) (hc : c.Akin c') (h : Twins W σ σ') (d : DataMap ℝ) :
    (∃ s s', σ.scheme.start d = .ok s ∧ σ'.scheme.start d = .ok s' ∧
      Twins W ⟨s, σ.chronicle.note (.start d) true⟩ ⟨s', σ'.chronicle.note (.start d) true⟩) ∨
    ∃ f f', σ.scheme.start d = .error f ∧ σ'.scheme.start d = .error f' := by
  obtain ⟨hs, hs'⟩ := h.scheme_config
  have hboth : (∃ s, σ.scheme.start d = .ok s) ↔ ∃ s', σ'.scheme.start d = .ok s' := by
    rw [start_ok_iff, start_ok_iff, hs, hs']
    exact forall_congr' fun id => imp_congr_left hc.dataIds.mem_iff
  cases hstart : σ.scheme.start d with
  | error f =>
    cases hstart' : σ'.scheme.start d with
    | error f' => exact .inr ⟨f, f', rfl, rfl⟩
    | ok s' =>
      obtain ⟨s, hs⟩ := hboth.2 ⟨s', hstart'⟩
      cases hstart.symm.trans hs
  | ok s =>
    obtain ⟨s', hstart'⟩ := hboth.1 ⟨s, hstart⟩
    refine .inl ⟨s, s', rfl, hstart', ?_⟩
    have he := start_exact h.exact hstart
    have he' := start_exact h.exact' hstart'
    have hother : (d.keys.filter fun id => !c'.dataIds.contains id) =
        d.keys.filter fun id => !c.dataIds.contains id :=
      List.filter_congr fun id _ => congrArg not (hc.dataIds.contains_eq).symm
    obtain ⟨-, rfl⟩ := start_eq hstart
    obtain ⟨-, rfl⟩ := start_eq hstart'
    refine of_fit hW he he' h.config ?_ ?_ h.weighting h.weighting' rfl rfl rfl rfl rfl rfl
    · rw [h.chronicle]
      show Chronicle.mk c' (d.keys.filter fun id => !c'.dataIds.contains id) _ _ _ _ =
        Chronicle.mk c' (d.keys.filter fun id => !σ.chronicle.config.dataIds.contains id) _ _ _ _
      rw [hother, h.config]
      rfl
    · show Outline.mk σ'.scheme.config.settings
          (d.keys.filter fun id => !σ'.scheme.config.dataIds.contains id) _ _ _ _ _ _ =
        Outline.mk σ.scheme.config.settings
          (d.keys.filter fun id => !σ.scheme.config.dataIds.contains id) _ _ _ _ _ _
      rw [hs, hs', hother, hc.settings]
      rfl

/-- Both drop their history, or neither does. -/
theorem adapt (hW : W.Kept) (hc : c.Akin c') (h : Twins W σ σ')
    (hst : σ.chronicle.started = true) {d : DataMap ℝ}
    (hd : ∀ id ∈ σ.chronicle.trackedIds, d.contains id = true) :
    Twins W ⟨σ.scheme.adapt d, σ.chronicle.meet d⟩ ⟨σ'.scheme.adapt d, σ'.chronicle.meet d⟩ := by
  have hst' : σ'.chronicle.started = true := by rw [h.chronicle]; exact hst
  have hd' : ∀ id ∈ σ'.chronicle.trackedIds, d.contains id = true := by
    rw [h.chronicle]
    exact fun id hid => hd id ((Chronicle.trackedIds_perm hc h.config).mem_iff.2 hid)
  have he := adapt_exact h.exact hst hd
  have he' := adapt_exact h.exact' hst' hd'
  have hmeet : σ'.chronicle.meet d = { σ.chronicle.meet d with config := c' } := by
    rw [h.chronicle, Chronicle.meet_config hc h.config]
  have hr := h.exact.sound.follows.isRemeshed_eq hst hd
  have hr' := h.exact'.sound.follows.isRemeshed_eq hst' hd'
  rw [h.chronicle, Chronicle.isRemeshed_config hc h.config] at hr'
  cases hcase : σ.chronicle.isRemeshed d with
  | true =>
    rw [hcase] at hr hr'
    have hs : σ.scheme.adapt d = σ.scheme.reset.record d := if_pos hr
    have hs' : σ'.scheme.adapt d = σ'.scheme.reset.record d := if_pos hr'
    rw [hs] at he ⊢
    rw [hs'] at he' ⊢
    refine of_fit hW he he' ((σ.chronicle.config_meet d).trans h.config) hmeet ?_ h.weighting
      h.weighting' rfl rfl rfl rfl rfl rfl
    exact congrArg (fun o => { o with
      coefficients := none, firstIteration := true, firstWindow := true, pendingClear := false })
      h.outline
  | false =>
    rw [hcase] at hr hr'
    have hs : σ.scheme.adapt d = σ.scheme := if_neg (by rw [hr]; exact Bool.false_ne_true)
    have hs' : σ'.scheme.adapt d = σ'.scheme := if_neg (by rw [hr']; exact Bool.false_ne_true)
    have hχ : σ.chronicle.meet d = σ.chronicle :=
      if_neg (by rw [hcase, Bool.and_false]; exact Bool.false_ne_true)
    rw [hs, hs', hmeet, hχ, ← h.chronicle]
    exact h

/-! ## Calls that learn -/

/-- A visit, stacked in two orders. -/
theorem relaid_snapshot (hc : c.Akin c') {χ : Chronicle ℝ} (hχ : χ.config = c) {d : DataMap ℝ}
    (hfit : χ.Fitting d) :
    Snapshot.Relaid (blockRows χ.size c.dataIds) (blockRows χ.size c'.dataIds)
      ⟨(d.stacked c.dataIds).sub (d.stackedOld c.dataIds), d.stacked c.dataIds⟩
      ⟨(d.stacked c'.dataIds).sub (d.stackedOld c'.dataIds), d.stacked c'.dataIds⟩ := by
  have hprim : ∀ id ∈ c.dataIds, d.Paired id ∧ (d.valuesOf id).length = χ.size id := fun id hid =>
    hfit id (List.mem_append_left _ (by rw [Chronicle.dataIds, hχ]; exact hid))
  exact ⟨DataMap.relaid_residual hc.dataIds hprim,
    DataMap.relaid_stacked hc.dataIds fun id hid => (hprim id hid).2⟩

/-- Both saw the same in the last call of the window. -/
theorem relaid_last (hc : c.Akin c') (h : Twins W σ σ') (hfirst : σ.scheme.firstIteration = false) :
    Option.Rel (Snapshot.Relaid (blockRows σ.chronicle.size c.dataIds)
      (blockRows σ.chronicle.size c'.dataIds)) σ.scheme.last σ'.scheme.last := by
  have hfirst' : σ'.scheme.firstIteration = false :=
    (congrArg Outline.firstIteration h.outline).trans hfirst
  obtain ⟨n, hn, -, hfitn, hlast, -⟩ := h.exact.sound.follows.newest hfirst
  obtain ⟨n', hn', -, -, hlast', -⟩ := h.exact'.sound.follows.newest hfirst'
  obtain rfl : n' = n := by
    rw [h.chronicle] at hn'
    exact Nat.succ.inj (hn'.symm.trans hn)
  rw [hlast, hlast', h.chronicle]
  have hsnap := relaid_snapshot hc h.config hfitn
  rw [← congrArg Config.dataIds h.config] at hsnap ⊢
  exact .some hsnap

/-- Both learn the same from a call and answer it alike. -/
theorem step (hW : W.Kept) (hc : c.Akin c') (h : Twins W σ σ')
    (hst : σ.chronicle.started = true) {d d₁ d₂ : DataMap ℝ} {s s' : QuasiNewton ℝ}
    (hfit : σ.chronicle.Fitting d) (he : Exact ⟨s, σ.chronicle.visit d⟩)
    (he' : Exact ⟨s', σ'.chronicle.visit d⟩)
    (hs : σ.scheme.step d (d.stacked c.dataIds) (d.stackedOld c.dataIds) = .ok (s, d₁))
    (hs' : σ'.scheme.step d (d.stacked c'.dataIds) (d.stackedOld c'.dataIds) = .ok (s', d₂)) :
    d₂ = d₁ ∧ Twins W ⟨s, σ.chronicle.visit d⟩ ⟨s', σ'.chronicle.visit d⟩ := by
  have hst' : σ'.chronicle.started = true := by rw [h.chronicle]; exact hst
  obtain ⟨w, hm⟩ := h.matched hst
  obtain ⟨s₁, a, -, hl, hresp, rfl⟩ := step_eq hs
  obtain ⟨s₁', a', -, hl', hresp', rfl⟩ := step_eq hs'
  have hnow := relaid_snapshot hc h.config hfit
  obtain ⟨w, hm₁⟩ := hm.learn hW hc.dataIds (h.exact'.exact hst').factorizes hnow
    (h.relaid_last hc) hl hl'
  obtain ⟨hframed, -⟩ := learn_framed hl
  obtain ⟨hframed', -⟩ := learn_framed hl'
  obtain ⟨hs, hs'⟩ := h.scheme_config
  have htracked : s₁.trackedIds = σ.scheme.trackedIds := by
    have hconfig : s₁.config = σ.scheme.config := hframed.setup.config
    have hsec : s₁.secondaryIds = σ.scheme.secondaryIds := hframed.setup.secondaryIds
    rw [QuasiNewton.trackedIds, QuasiNewton.trackedIds, hconfig, hsec]
  obtain ⟨rfl, rfl⟩ := hm₁.respond hc.dataIds (hframed.setup.config.trans hs)
    (hframed'.setup.config.trans hs') (htracked ▸ h.nodup_trackedIds hc)
    (fun id hid => (hfit id (List.mem_append_left _ (by
      rw [Chronicle.dataIds, h.config]
      exact hid))).2) hnow hresp hresp'
  have houtline := congrArg (fun o => { o with coefficients := a', firstIteration := false })
    hm₁.outline
  refine ⟨rfl, he, he', h.config, ?_, houtline, hframed.weighting.trans h.weighting,
    hframed'.weighting.trans h.weighting', fun _ =>
      ⟨w, houtline, hm₁.agree, hm₁.history, hm₁.factorization⟩⟩
  rw [h.chronicle]
  rfl

/-- Both answer a call, with the same data, or refuse it. -/
theorem perform (hW : W.Kept) (hc : c.Akin c') (h : Twins W σ σ') (d : DataMap ℝ) :
    ∃ r r', σ.scheme.perform d = .ok r ∧ σ'.scheme.perform d = .ok r' ∧
      r'.answer.isOk = r.answer.isOk ∧ r'.data = r.data ∧
      Twins W ⟨r.scheme, σ.chronicle.note (.perform d) r.answer.isOk⟩
        ⟨r'.scheme, σ'.chronicle.note (.perform d) r'.answer.isOk⟩ := by
  obtain ⟨r, hr, he⟩ := h.exact.perform_total d
  obtain ⟨r', hr', he'⟩ := h.exact'.perform_total d
  refine ⟨r, r', hr, hr', ?_⟩
  have hf := h.exact.sound.follows
  have hperm := h.trackedIds_perm hc
  obtain ⟨hs, hs'⟩ := h.scheme_config
  -- what is asked of the blocks is asked of all of them, in any order
  have hall (P : DataId → Prop) : (σ'.scheme.started = true ∧ ∀ id ∈ σ'.scheme.trackedIds, P id) ↔
      σ.scheme.started = true ∧ ∀ id ∈ σ.scheme.trackedIds, P id := by
    rw [h.started]
    exact and_congr_right fun _ => forall_congr' fun id => imp_congr_left hperm.mem_iff.symm
  have hadapt (hin : σ.scheme.started = true ∧
      ∀ id ∈ σ.scheme.trackedIds, d.contains id = true) : Twins W
      ⟨σ.scheme.adapt d, σ.chronicle.meet d⟩ ⟨σ'.scheme.adapt d, σ'.chronicle.meet d⟩ :=
    h.adapt hW hc (hf.started.symm.trans hin.1) (hf.trackedIds ▸ hin.2)
  by_cases hp : σ.scheme.started = true ∧ ∀ id ∈ σ.scheme.trackedIds, d.Paired id
  · have hp' := (hall fun id => d.Paired id).2 hp
    rw [perform_of_paired hp.1 hp.2, hs] at hr
    rw [perform_of_paired hp'.1 hp'.2, hs'] at hr'
    obtain ⟨⟨s₁, d₁⟩, hstep, rfl⟩ := map_eq_ok.1 hr
    obtain ⟨⟨s₂, d₂⟩, hstep', rfl⟩ := map_eq_ok.1 hr'
    have hst : (σ.chronicle.meet d).started = true :=
      (σ.chronicle.started_meet d).trans (hf.started.symm.trans hp.1)
    have hfit := Chronicle.fitting_meet (hf.started.symm.trans hp.1) (d := d)
      (hf.trackedIds ▸ hp.2)
    have ha := hadapt ⟨hp.1, fun id hid => contains_of_paired (hp.2 id hid)⟩
    obtain ⟨rfl, ht⟩ := ha.step hW hc hst hfit he he' hstep hstep'
    exact ⟨rfl, rfl, ht⟩
  · obtain ⟨fault, hrefused⟩ := perform_of_not_paired hp
    obtain ⟨fault', hrefused'⟩ := perform_of_not_paired (mt (hall fun id => d.Paired id).1 hp)
    obtain rfl := Except.ok.inj (hrefused.symm.trans hr)
    obtain rfl := Except.ok.inj (hrefused'.symm.trans hr')
    refine ⟨rfl, rfl, ?_⟩
    show Twins W ⟨_, σ.chronicle.meet d⟩ ⟨_, σ'.chronicle.meet d⟩
    dsimp only
    by_cases hin : σ.scheme.started = true ∧ ∀ id ∈ σ.scheme.trackedIds, d.contains id = true
    · rw [if_pos hin, if_pos ((hall fun id => d.contains id = true).2 hin)]
      exact hadapt hin
    · have hin' := mt (hall fun id => d.contains id = true).1 hin
      rw [if_neg hin, if_neg hin', hf.meet_eq hin, h.exact'.sound.follows.meet_eq hin']
      exact h

/-- Both finish the window, or refuse to. -/
theorem converged (h : Twins W σ σ') (d : DataMap ℝ) :
    ∃ r r', σ.scheme.converged d = .ok r ∧ σ'.scheme.converged d = .ok r' ∧
      r'.answer.isOk = r.answer.isOk ∧ r'.data = r.data ∧
      Twins W ⟨r.scheme, σ.chronicle.note (.converged d) r.answer.isOk⟩
        ⟨r'.scheme, σ'.chronicle.note (.converged d) r'.answer.isOk⟩ := by
  obtain ⟨r, hr, he⟩ := h.exact.converged_total d
  obtain ⟨r', hr', he'⟩ := h.exact'.converged_total d
  refine ⟨r, r', hr, hr', ?_⟩
  unfold QuasiNewton.converged at hr hr'
  have hboth : (!σ'.scheme.started) = !σ.scheme.started := congrArg not h.started
  rw [hboth] at hr'
  split at hr
  next hno =>
    rw [if_pos hno] at hr'
    obtain rfl := Except.ok.inj hr
    obtain rfl := Except.ok.inj hr'
    exact ⟨rfl, rfl, h⟩
  next hst =>
    rw [if_neg hst] at hr'
    rw [Bool.not_eq_true', Bool.not_eq_false] at hst
    obtain ⟨s, hs, hr⟩ := bind_ok hr
    obtain ⟨s', hs', hr'⟩ := bind_ok hr'
    obtain rfl := Except.ok.inj hr
    obtain rfl := Except.ok.inj hr'
    refine ⟨rfl, rfl, ?_⟩
    obtain ⟨w, hm⟩ := h.matched (h.exact.sound.follows.started.symm.trans hst)
    have hfinished : Matched W σ.chronicle.size w
        { σ.scheme with
          history := { σ.scheme.history with windows := σ.scheme.history.windows.finish } }
        { σ'.scheme with
          history := { σ'.scheme.history with windows := σ'.scheme.history.windows.finish } } := by
      refine ⟨hm.outline, hm.agree, ?_, hm.factorization⟩
      rw [hm.history.windows]
      exact hm.history.withWindows _
    have hkept := hfinished.retain hs hs'
    have houtline := congrArg (fun o => { o with firstIteration := true, firstWindow := false })
      hkept.outline
    refine ⟨he, he', h.config, ?_, houtline, (retain_framed hs).weighting.trans h.weighting,
      (retain_framed hs').weighting.trans h.weighting', fun _ =>
        ⟨w, houtline, hkept.agree, ?_, hkept.factorization⟩⟩
    · show σ'.chronicle.turn = { σ.chronicle.turn with config := c' }
      rw [h.chronicle]
      rfl
    · show History.Tied _ _ w { s.history with windows := s.history.windows.begin }
        { s'.history with windows := s'.history.windows.begin }
      rw [hkept.history.windows]
      exact hkept.history.withWindows _

end Twins

end Session

end Cosimulation.Acceleration

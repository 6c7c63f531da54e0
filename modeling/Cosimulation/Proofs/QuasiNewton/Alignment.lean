import Cosimulation.Proofs.QuasiNewton.Learning

/-!
# Scheme and chronicle in step

Along a run of calls, answered or refused, the state of a scheme stays in step with the record of
the calls (`run_sound`). This holds in any arithmetic, as long as no call breaks off.

The invariant of a run has two halves. `InStep` is about the columns and is kept by whatever edits
them: by learning, and at the end of a window by `retain_learnt`. `Session.Follows` is about the
settings and the last visit: scheme and chronicle agree on which blocks there are, how long they
are, and what the last call saw, so that the move since the last call is the move since the last
visit. A remeshing is where the two need each other: the scheme notices it by its recorded lengths,
the chronicle by the data it keeps, and `isRemeshed_eq` says that they notice the same.
-/

namespace Cosimulation.Acceleration

variable {α : Type} [Scalar α]

namespace QuasiNewton

variable {W : Weighing α} {χ : Chronicle α} {n current : Nat} {s s' : QuasiNewton α}
  {ks ws : List Nat}

/-! ## The end of a window -/

/-- The oldest columns go, and the windows are not told. -/
theorem removeOldest_lists {R : Nat → Vec α → Prop} {ids : List DataId} : ∀ (m : Nat)
    {s : QuasiNewton α} {ks : List Nat}, s.history.Lists R χ ids ks ks → s.factorization.Shaped →
      s.factorization.columns = ks.length → s.removeOldest m = .ok s' →
        SameSetup s s' ∧ s'.preconditioner = s.preconditioner ∧
        s'.history.windows = s.history.windows ∧ s'.history.Lists R χ ids (ks.drop m) (ks.drop m) ∧
        s'.factorization.Shaped ∧ s'.factorization.columns = (ks.drop m).length := by
  intro m
  induction m with
  | zero =>
    intro s ks hl hs hc h
    obtain rfl := Except.ok.inj h
    exact ⟨rfl, rfl, rfl, hl, hs, hc⟩
  | succ m ih =>
    intro s ks hl hs hc h
    obtain ⟨f, hf, h⟩ := bind_ok h
    obtain ⟨g, hg, h⟩ := bind_ok h
    obtain ⟨hshaped, -, hcols, -⟩ := Factorization.delete_shaped hs hf
    obtain ⟨hi, hw, hl'⟩ := hl.removeColumn hg
    rw [List.eraseIdx_zero] at hl'
    obtain ⟨hsame, hp, hw', hl'', hs', hc'⟩ := ih (s := { s with factorization := f, history := g })
      hl' hshaped (by rw [List.length_tail]; show f.columns = _; omega) h
    rw [List.drop_tail] at hl'' hc'
    exact ⟨hsame, hp, hw'.trans hw, hl'',
      hs', hc'⟩

/-- The oldest windows go with their columns. -/
theorem removeWindows_learnt : ∀ (m : Nat) {s : QuasiNewton α} {ks ws : List Nat},
    Learnt W χ n s ks ks ws → s.removeWindows m = .ok s' →
      SameSetup s s' ∧ ∃ ks' ws', ws'.Sublist ws ∧ Learnt W χ n s' ks' ks' ws' := by
  intro m
  induction m with
  | zero =>
    intro s ks ws hl h
    obtain rfl := Except.ok.inj h
    exact ⟨rfl, ks, ws, List.Sublist.refl ws, hl⟩
  | succ m ih =>
    intro s ks ws hl h
    rw [removeWindows] at h
    split at h
    next =>
      obtain rfl := Except.ok.inj h
      exact ⟨rfl, ks, ws, List.Sublist.refl ws, hl⟩
    next size sizes hsizes =>
      obtain ⟨s₁, h₁, h⟩ := bind_ok h
      -- the columns of the oldest window stand in front
      have hgroups : (Windows.mk (size :: sizes)).Groups ws (ks.map χ.windowOf) := by
        rw [← hsizes]
        exact hl.records.windows
      obtain ⟨ws₁, hsub₁, hgroups₁⟩ := hgroups.tail
      rw [← List.map_drop] at hgroups₁
      have hrec := hl.records
      obtain ⟨hsame₁, hp, hw, hl₁, hs₁, hc₁⟩ := removeOldest_lists size
        (s := { s with history := { s.history with windows := ⟨sizes⟩ } })
        ⟨hrec.residuals, hrec.iterates, hrec.secondary⟩ hl.shaped hl.columns h₁
      have hsec : s₁.secondaryIds = s.secondaryIds := hsame₁.secondaryIds
      have hpre : s₁.preconditioner = s.preconditioner := hp
      have hlearnt : Learnt W χ n s₁ (ks.drop size) (ks.drop size) ws₁ := by
        refine ⟨hpre ▸ hl.good, ?_, hs₁, hc₁, hl.ascending.sublist (List.drop_sublist size ks)⟩
        rw [hpre, hsec]
        refine ⟨hl₁, ?_⟩
        rw [hw]
        exact hgroups₁
      obtain ⟨hsame₂, ks', ws', hsub', hl'⟩ := ih hlearnt h
      exact ⟨SameSetup.trans (s := s) hsame₁ hsame₂, ks', ws',
        hsub'.trans hsub₁, hl'⟩

/-- What is kept of a finished window is in step, and no window is younger than it was. -/
theorem retain_learnt (hl : Learnt W χ n s ks ks ws) (hle : ∀ x ∈ ws, x ≤ current)
    (h : s.retain = .ok s') :
    SameSetup s s' ∧ ∃ ks' ws', (∀ x ∈ ws', x ≤ current) ∧ Learnt W χ n s' ks' ks' ws' := by
  unfold retain at h
  split at h
  next =>
    split at h
    next =>
      obtain rfl := Except.ok.inj h
      exact ⟨rfl, [], [current],
        fun x hx => Nat.le_of_eq (List.mem_singleton.1 hx), clear_learnt hl.good⟩
    next =>
      obtain rfl := Except.ok.inj h
      exact ⟨rfl, ks, ws, hle, hl.good, hl.records, hl.shaped,
        hl.columns, hl.ascending⟩
  next =>
    obtain ⟨hsame, ks', ws', hsub, hl'⟩ := removeWindows_learnt _ hl h
    exact ⟨hsame, ks', ws', fun x hx => hle x (hsub.subset hx), hl'⟩

/-! ## One call -/

/-- A later visit leaves the columns in step. -/
theorem InStep.visit {d : DataMap α} (h : InStep W χ χ.visits.length current s) :
    InStep W (χ.visit d) χ.visits.length current s := by
  obtain ⟨ks, ws, hw, hl⟩ := h
  have hlt := hl.lt
  have hprev : ∀ i ∈ ks, i - 1 < χ.visits.length := fun i hi =>
    Nat.lt_of_le_of_lt (Nat.sub_le i 1) (hlt i hi)
  refine ⟨ks, ws, hw, hl.good, hl.records.congr ?_ ?_ ?_ ?_, hl.shaped, hl.columns, hl.ascending⟩
  · rintro i hi x ⟨hin, hcont, hsc⟩
    refine ⟨hin, ⟨hcont.pos, ?_, ?_, fun id hid => ?_⟩, ?_⟩
    · rw [Chronicle.length_visits_visit]
      exact Nat.lt_succ_of_lt hcont.visited
    · rw [Chronicle.windowOf_visit (hlt i hi), Chronicle.windowOf_visit (hprev i hi), hcont.window]
    · rw [Chronicle.data_visit (hlt i hi), Chronicle.data_visit (hprev i hi)]
      exact hcont.lengths id hid
    · rw [Chronicle.residualMove, Chronicle.residual_visit (hlt i hi),
        Chronicle.residual_visit (hprev i hi)]
      exact hsc
  · intro i hi
    rw [Chronicle.iterateMove, Chronicle.iterate_visit (hlt i hi),
      Chronicle.iterate_visit (hprev i hi)]
    rfl
  · intro id _ i hi
    rw [Chronicle.secondaryMove, Chronicle.values_visit (hlt i hi),
      Chronicle.values_visit (hprev i hi)]
    rfl
  · exact fun i hi => Chronicle.windowOf_visit (hlt i hi)

/-- A window that begins changes no visit. -/
theorem Learnt.turn (h : Learnt W χ n s ks ks ws) : Learnt W χ.turn n s ks ks ws :=
  ⟨h.good, h.records.congr (fun _ _ _ ⟨hin, hc, hsc⟩ =>
      ⟨hin, ⟨hc.pos, hc.visited, hc.window, hc.lengths⟩, hsc⟩)
      (fun _ _ => rfl) (fun _ _ _ _ => rfl) (fun _ _ => rfl),
    h.shaped, h.columns, h.ascending⟩

theorem checked_eq (h : s.checked = .ok s') : s' = s := by
  unfold checked at h
  split at h
  next => exact (Except.ok.inj h).symm
  next => cases h

/-- A start is a reset, with the blocks fixed anew, on data that have the primary ones. -/
theorem start_eq {data : DataMap α} (h : s.start data = .ok s') :
    (∀ id ∈ s.config.dataIds, data.contains id) ∧
      s' = QuasiNewton.record (reset { s with
        secondaryIds := data.keys.filter fun id => !s.config.dataIds.contains id
        lastSecondary := .empty
        started := true }) data := by
  obtain ⟨⟨⟩, hreq, h⟩ := bind_ok h
  exact ⟨DataMap.requireAll_ok_iff.1 hreq, (Except.ok.inj h).symm⟩

/-- The parts of a call on accepted data. -/
theorem step_eq {data data' : DataMap α} {values old : Vec α}
    (h : s.step data values old = .ok (s', data')) :
    ∃ s₁ coefficients, values.length = old.length ∧
      s.learn data ⟨values.sub old, values⟩ = .ok s₁ ∧
      s₁.respond data ⟨values.sub old, values⟩ = .ok (coefficients, data') ∧
      s' = { s₁ with
        coefficients
        last := some ⟨values.sub old, values⟩
        firstIteration := false } := by
  obtain ⟨residual, hres, h⟩ := bind_ok h
  obtain ⟨hlen, rfl⟩ := Vec.minus_ok_iff.1 hres
  obtain ⟨s₁, h₁, h⟩ := bind_ok h
  obtain ⟨⟨coefficients, stored⟩, h₂, h⟩ := bind_ok h
  obtain ⟨s₂, h₃, h⟩ := bind_ok h
  obtain ⟨rfl, rfl⟩ := Prod.mk.inj (Except.ok.inj h)
  exact ⟨s₁, coefficients, hlen, h₁, h₂, checked_eq h₃⟩

/-- The parts of an answer. -/
theorem respond_eq {data data' : DataMap α} {now : Snapshot α} {coefficients : Option (List α)}
    (h : s.respond data now = .ok (coefficients, data')) : ∃ moved,
      s.solve now.residual = .ok coefficients ∧
      s.advance data now.iterate coefficients = .ok moved ∧
      moved.store s.trackedIds = .ok data' := by
  obtain ⟨c, hc, h⟩ := bind_ok h
  obtain ⟨moved, hm, h⟩ := bind_ok h
  obtain ⟨stored, hs, h⟩ := bind_ok h
  obtain ⟨rfl, rfl⟩ := Prod.mk.inj (Except.ok.inj h)
  exact ⟨moved, hc, hm, hs⟩

/-- Data are accepted or not. If a block is missing nothing happens; otherwise the scheme adapts to
them, and accepts them if the blocks are paired. -/
theorem accept_cases {data : DataMap α} {answer : Except (Fault α) (Vec α × Vec α)}
    (h : s.accept data = (answer, s')) :
    (s' = s ∧ (∃ fault, answer = .error fault) ∧
      ¬ (s.started = true ∧ ∀ id ∈ s.trackedIds, data.contains id)) ∨
    (s' = s.adapt data ∧ (s.started = true ∧ ∀ id ∈ s.trackedIds, data.contains id) ∧
      ∀ values old, answer = .ok (values, old) →
        (∀ id ∈ s'.trackedIds, data.Paired id) ∧ values = data.stacked s'.config.dataIds ∧
          old = data.stackedOld s'.config.dataIds) := by
  unfold accept at h
  split at h
  next hst =>
    obtain ⟨rfl, rfl⟩ := Prod.mk.inj h
    refine .inl ⟨rfl, ⟨_, rfl⟩, fun hh => ?_⟩
    rw [hh.1] at hst
    cases hst
  next hst =>
    split at h
    next fault hreq =>
      obtain ⟨rfl, rfl⟩ := Prod.mk.inj h
      refine .inl ⟨rfl, ⟨_, rfl⟩, fun hh => ?_⟩
      rw [DataMap.requireAll_ok_iff.2 hh.2] at hreq
      cases hreq
    next hreq =>
      have hall := DataMap.requireAll_ok_iff.1 hreq
      have hstarted : s.started = true := by
        cases hs : s.started with
        | true => rfl
        | false => rw [hs] at hst; exact absurd rfl hst
      dsimp only at h
      split at h
      next =>
        obtain ⟨rfl, rfl⟩ := Prod.mk.inj h
        exact .inr ⟨rfl, ⟨hstarted, hall⟩, fun _ _ hh => nomatch hh⟩
      next hsizes =>
        obtain ⟨rfl, rfl⟩ := Prod.mk.inj h
        refine .inr ⟨rfl, ⟨hstarted, hall⟩, fun values old hstack => ?_⟩
        obtain ⟨hprimary, rfl, rfl⟩ := DataMap.stack_ok_iff.1 hstack
        refine ⟨?_, rfl, rfl⟩
        exact List.forall_mem_append.2 ⟨hprimary, DataMap.checkSizes_ok_iff.1 hsizes⟩

/-- What holds of a scheme holds after a call, if it holds once the scheme has adapted to the data
and an answer leaves it. -/
theorem perform_keeps {P : QuasiNewton α → Prop} {d : DataMap α} {reply : Reply (QuasiNewton α) α}
    (h : P s)
    (hadapt : s.started = true → (∀ id ∈ s.trackedIds, d.contains id) → P (s.adapt d))
    (hstep : ∀ {s₁ s₂ : QuasiNewton α} {d' : DataMap α} {values old : Vec α}, P s₁ →
      s₁.started = true → s₁.step d values old = .ok (s₂, d') → P s₂)
    (hp : s.perform d = .ok reply) : P reply.scheme := by
  unfold perform at hp
  obtain ⟨answer, s₁, ha⟩ : ∃ answer s₁, s.accept d = (answer, s₁) := ⟨_, _, rfl⟩
  rw [ha] at hp
  rcases accept_cases ha with ⟨rfl, ⟨fault, rfl⟩, -⟩ | ⟨rfl, ⟨hst, hall⟩, -⟩
  · obtain rfl := Except.ok.inj hp
    exact h
  cases answer with
  | error fault =>
    obtain rfl := Except.ok.inj hp
    exact hadapt hst hall
  | ok pair =>
    obtain ⟨⟨s₂, d'⟩, hs, hp⟩ := bind_ok hp
    obtain rfl := Except.ok.inj hp
    refine hstep (hadapt hst hall) ?_ hs
    unfold adapt
    split <;> exact hst

end QuasiNewton

/-! ## Scheme and chronicle -/

namespace Session

/-- Scheme and chronicle agree on the blocks, on their lengths, and on what the last call saw. -/
structure Follows (σ : Session α) : Prop where
  config : σ.scheme.config = σ.chronicle.config
  secondaryIds : σ.scheme.secondaryIds = σ.chronicle.secondaryIds
  distinct : σ.chronicle.secondaryIds.Nodup
  separate : ∀ id ∈ σ.chronicle.secondaryIds, id ∉ σ.chronicle.dataIds
  started : σ.scheme.started = σ.chronicle.started
  complete : σ.chronicle.started = true →
    ∀ id ∈ σ.chronicle.trackedIds, σ.chronicle.fitted.contains id = true
  sizes : σ.scheme.sizes = σ.chronicle.trackedIds.filterMap fun id =>
    (σ.chronicle.fitted.find? id).map fun b => (id, b.size)
  newest : σ.scheme.firstIteration = false → ∃ n, σ.chronicle.visits.length = n + 1 ∧
    σ.chronicle.windowOf n = σ.chronicle.window ∧
    σ.chronicle.Fitting (σ.chronicle.data n) ∧
    σ.scheme.last = some ⟨σ.chronicle.residual n, σ.chronicle.iterate n⟩ ∧
    ∀ id ∈ σ.chronicle.secondaryIds,
      σ.scheme.lastSecondary.find? id = some (σ.chronicle.values id n)

/-- The invariant of a run. -/
structure Sound (W : Weighing α) (σ : Session α) : Prop where
  follows : σ.Follows
  inStep : QuasiNewton.InStep W σ.chronicle σ.chronicle.visits.length σ.chronicle.window σ.scheme

variable {W : Weighing α} {σ σ' : Session α}

theorem Follows.dataIds (h : σ.Follows) : σ.scheme.config.dataIds = σ.chronicle.dataIds :=
  congrArg Config.dataIds h.config

theorem Follows.trackedIds (h : σ.Follows) : σ.scheme.trackedIds = σ.chronicle.trackedIds := by
  rw [QuasiNewton.trackedIds, h.dataIds, h.secondaryIds]
  rfl

omit [Scalar α] in
/-- What a list made from a map says of a key that the map has. -/
theorem lookup_filterMap {β γ : Type} {g : Nat → Option β} (f : β → γ) {id : Nat} :
    ∀ {ids : List Nat}, (∀ j ∈ ids, (g j).isSome) → id ∈ ids →
      (ids.filterMap fun j => (g j).map fun b => (j, f b)).lookup id = (g id).map f := by
  intro ids
  induction ids with
  | nil => intro _ h; exact absurd h List.not_mem_nil
  | cons j js ih =>
    intro hall h
    obtain ⟨b, hb⟩ := Option.isSome_iff_exists.1 (hall j List.mem_cons_self)
    rw [List.filterMap_cons, hb]
    show ((j, f b) :: _).lookup id = (g id).map f
    rw [OrderedMap.lookup_cons_eq_ite]
    by_cases hj : id = j
    · rw [if_pos hj, hj, hb]
      rfl
    · rw [if_neg hj]
      exact ih (fun i hi => hall i (List.mem_cons_of_mem _ hi))
        ((List.mem_cons.1 h).resolve_left hj)

/-- The scheme and its chronicle notice the same remeshings. -/
theorem Follows.isRemeshed_eq (h : σ.Follows) (hst : σ.chronicle.started = true) {d : DataMap α}
    (hd : ∀ id ∈ σ.chronicle.trackedIds, d.contains id = true) :
    σ.scheme.isRemeshed d = σ.chronicle.isRemeshed d := by
  have hfit := h.complete hst
  rw [Chronicle.isRemeshed, List.all_eq_true.2 hd, Bool.true_and, QuasiNewton.isRemeshed,
    h.trackedIds, h.sizes]
  refine Bool.eq_iff_iff.2 ?_
  rw [List.any_eq_true, List.any_eq_true]
  refine exists_congr fun id => and_congr_right fun hid => ?_
  obtain ⟨b, hb⟩ := Option.isSome_iff_exists.1 (hd id hid)
  obtain ⟨c, hc⟩ := Option.isSome_iff_exists.1 (hfit id hid)
  rw [lookup_filterMap Block.size hfit hid, hb, hc, DataMap.valuesOf_eq hb, DataMap.valuesOf_eq hc]
  show (c.size != b.size) = true ↔ (b.size != c.size) = true
  rw [bne_comm]

/-- Data that are refused outright are not taken for a remeshing. -/
theorem Follows.not_remeshed (h : σ.Follows) {d : DataMap α}
    (hnot : ¬ (σ.scheme.started = true ∧ ∀ id ∈ σ.scheme.trackedIds, d.contains id)) :
    ¬ (σ.chronicle.started && σ.chronicle.isRemeshed d) = true := by
  intro hh
  rw [Bool.and_eq_true, Chronicle.isRemeshed, Bool.and_eq_true, List.all_eq_true] at hh
  refine hnot ⟨h.started.trans hh.1, ?_⟩
  rw [h.trackedIds]
  exact hh.2.1

/-- They leave the chronicle as it is. -/
theorem Follows.meet_eq (h : σ.Follows) {d : DataMap α}
    (hnot : ¬ (σ.scheme.started = true ∧ ∀ id ∈ σ.scheme.trackedIds, d.contains id)) :
    σ.chronicle.meet d = σ.chronicle := if_neg (h.not_remeshed hnot)

/-! ## Calls keep the invariant -/

theorem new_sound (W : Weighing α) (config : Config α) : (new config).Sound W := by
  refine ⟨⟨rfl, rfl, List.nodup_nil, fun _ h => absurd h List.not_mem_nil, rfl,
    fun h => absurd h Bool.false_ne_true, ?_,
    fun h => absurd h.symm Bool.false_ne_true⟩, [], [0], rfl, W.good_new _,
    History.empty_records _ _ _ 0, Factorization.empty_shaped 0, rfl, .nil⟩
  exact (List.filterMap_eq_nil_iff.2 fun _ _ => rfl).symm

/-- A scheme that starts afresh on some data is sound in a window that begins. -/
theorem record_sound {s : QuasiNewton α} {χ : Chronicle α} {d : DataMap α} (W : Weighing α)
    (hconfig : s.config = χ.config) (hsec : s.secondaryIds = χ.secondaryIds)
    (hnodup : χ.secondaryIds.Nodup) (hsep : ∀ id ∈ χ.secondaryIds, id ∉ χ.dataIds)
    (hst : s.started = χ.started)
    (hall : ∀ id ∈ χ.trackedIds, d.contains id = true) :
    Sound W ⟨s.reset.record d, { χ.turn with fitted := d }⟩ := by
  have htracked : s.reset.trackedIds = χ.trackedIds := by
    rw [QuasiNewton.trackedIds, Chronicle.trackedIds, Chronicle.dataIds, ← hconfig, ← hsec]
    rfl
  refine ⟨⟨hconfig, hsec, hnodup, hsep, hst, fun _ => hall, ?_, fun h => nomatch h⟩,
    [], [χ.window + 1], rfl, W.good_fit _ _, History.empty_records _ _ _ _,
    Factorization.empty_shaped _, rfl, .nil⟩
  show s.reset.trackedIds.filterMap _ = _
  rw [htracked]
  rfl

theorem start_sound (h : σ.Sound W) {d : DataMap α} {s' : QuasiNewton α}
    (hs : σ.scheme.start d = .ok s') :
    Sound W ⟨s', σ.chronicle.note (.start d) true⟩ := by
  obtain ⟨hprim, rfl⟩ := QuasiNewton.start_eq hs
  have hids := h.follows.dataIds
  have hother : (d.keys.filter fun id => !σ.chronicle.dataIds.contains id) =
      d.keys.filter fun id => !σ.scheme.config.dataIds.contains id := by rw [hids]
  exact record_sound W
    (χ := { σ.chronicle with
      secondaryIds := d.keys.filter fun id => !σ.chronicle.dataIds.contains id
      started := true })
    h.follows.config hother.symm (d.nodup_keys.filter _) (fun id hid => by
      have hnot := (List.mem_filter.1 hid).2
      rw [Bool.not_eq_true', List.contains_eq_mem, decide_eq_false_iff_not] at hnot
      exact hnot) rfl (List.forall_mem_append.2
      ⟨fun id hid => hprim id (hids.symm ▸ hid), fun id hid =>
        OrderedMap.contains_iff_mem_keys.2 (List.mem_of_mem_filter hid)⟩)

theorem reset_sound (h : σ.Sound W) : Sound W ⟨σ.scheme.reset, σ.chronicle.note .reset true⟩ :=
  ⟨⟨h.follows.config, h.follows.secondaryIds, h.follows.distinct, h.follows.separate,
      h.follows.started, h.follows.complete, h.follows.sizes, fun h => nomatch h⟩,
    [], [_], rfl, W.good_fit _ _, History.empty_records _ _ _ _, Factorization.empty_shaped _, rfl,
    .nil⟩

/-- The last window is the youngest. -/
theorem le_of_getLast? {ws : List Nat} {current : Nat} (ha : ws.Pairwise (· < ·))
    (hl : ws.getLast? = some current) : ∀ x ∈ ws, x ≤ current := by
  obtain ⟨front, rfl⟩ := List.getLast?_eq_some_iff.1 hl
  intro x hx
  rcases List.mem_append.1 hx with hx | hx
  · exact Nat.le_of_lt ((List.pairwise_append.1 ha).2.2 x hx current List.mem_cons_self)
  · exact Nat.le_of_eq (List.mem_singleton.1 hx)

theorem converged_sound (h : σ.Sound W) {d : DataMap α} {reply : Reply (QuasiNewton α) α}
    (hc : σ.scheme.converged d = .ok reply) :
    Sound W ⟨reply.scheme, σ.chronicle.note (.converged d) reply.answer.isOk⟩ := by
  unfold QuasiNewton.converged at hc
  split at hc
  next =>
    obtain rfl := Except.ok.inj hc
    exact h
  next =>
    obtain ⟨s, hr, hc⟩ := bind_ok hc
    obtain rfl := Except.ok.inj hc
    obtain ⟨ks, ws, hw, hl⟩ := h.inStep
    have hle := le_of_getLast? hl.records.windows.ascending hw
    obtain ⟨ws₁, hsub, hgroups⟩ := hl.records.windows.finish
    have hl₁ : QuasiNewton.Learnt W σ.chronicle σ.chronicle.visits.length
        { σ.scheme with
          history := { σ.scheme.history with windows := σ.scheme.history.windows.finish } }
        ks ks ws₁ :=
      ⟨hl.good, ⟨⟨hl.records.residuals, hl.records.iterates, hl.records.secondary⟩, hgroups⟩,
        hl.shaped, hl.columns, hl.ascending⟩
    obtain ⟨hsame, ks', ws', hle', hl₂⟩ :=
      QuasiNewton.retain_learnt hl₁ (fun x hx => hle x (hsub.subset hx)) hr
    have hl' := hl₂.turn
    have hf := h.follows
    refine ⟨⟨hsame.config.trans hf.config, hsame.secondaryIds.trans hf.secondaryIds,
        hf.distinct, hf.separate, hsame.started.trans hf.started, hf.complete,
        hsame.sizes.trans hf.sizes, fun h => absurd h.symm Bool.false_ne_true⟩,
      ks', ws' ++ [σ.chronicle.window + 1], List.getLast?_concat, hl'.good,
      ⟨⟨hl'.records.residuals, hl'.records.iterates, hl'.records.secondary⟩, ?_⟩, hl'.shaped,
      hl'.columns, hl'.ascending⟩
    exact hl'.records.windows.begin fun x hx => Nat.lt_succ_of_le (hle' x hx)

/-- Data with all blocks come in: where a block changed its length the history is gone. -/
theorem adapt_sound (h : σ.Sound W) (hst : σ.chronicle.started = true) {d : DataMap α}
    (hd : ∀ id ∈ σ.chronicle.trackedIds, d.contains id = true) :
    Sound W ⟨σ.scheme.adapt d, σ.chronicle.meet d⟩ := by
  have hf := h.follows
  rw [QuasiNewton.adapt, Chronicle.meet, hf.isRemeshed_eq hst hd, hst, Bool.true_and]
  split
  next => exact record_sound W hf.config hf.secondaryIds hf.distinct hf.separate hf.started hd
  next => exact h

/-- What a call that will be the next visit learns. -/
theorem learn_sound (h : σ.Sound W) {d : DataMap α} {s' : QuasiNewton α}
    (hfit : σ.chronicle.Fitting d)
    (hl : σ.scheme.learn d ⟨(d.stacked σ.chronicle.dataIds).sub (d.stackedOld σ.chronicle.dataIds),
      d.stacked σ.chronicle.dataIds⟩ = .ok s') :
    QuasiNewton.SameSetup { σ.scheme with lastSecondary := s'.lastSecondary } s' ∧
      (∀ id ∈ σ.chronicle.secondaryIds, s'.lastSecondary.find? id =
        some ((σ.chronicle.visit d).values id σ.chronicle.visits.length)) ∧
      QuasiNewton.InStep W (σ.chronicle.visit d) (σ.chronicle.visits.length + 1) σ.chronicle.window
        s' := by
  have hf := h.follows
  have hin : QuasiNewton.InStep W (σ.chronicle.visit d) σ.chronicle.visits.length
      ((σ.chronicle.visit d).windowOf σ.chronicle.visits.length) σ.scheme := by
    rw [Chronicle.windowOf_visit_length]
    exact h.inStep.visit
  obtain ⟨hsame, hnoted, hin'⟩ := QuasiNewton.learn_inStep hin
    (by rw [Chronicle.residual_visit_length, Chronicle.iterate_visit_length])
    Chronicle.data_visit_length (hf.secondaryIds ▸ hf.distinct) (fun hfirst => by
      obtain ⟨n, hn, hwin, hfitn, hlast, hsec⟩ := hf.newest hfirst
      have hlt : n < σ.chronicle.visits.length := hn ▸ Nat.lt_succ_self n
      have hprev : σ.chronicle.visits.length - 1 = n := by rw [hn, Nat.add_sub_cancel]
      rw [hprev, Chronicle.residual_visit hlt, Chronicle.iterate_visit hlt]
      refine ⟨⟨Nat.lt_of_le_of_lt (Nat.zero_le n) hlt, ?_, ?_, fun id hid => ?_⟩, hlast,
        fun id hid => ?_⟩
      · rw [Chronicle.length_visits_visit]
        exact Nat.lt_succ_self _
      · rw [hprev, Chronicle.windowOf_visit_length, Chronicle.windowOf_visit hlt, hwin]
      · rw [hprev, Chronicle.data_visit hlt, Chronicle.data_visit_length]
        exact ⟨_, hfit.lengths_eq hid, hfitn.lengths_eq hid⟩
      · rw [Chronicle.values_visit hlt]
        exact hsec id (hf.secondaryIds ▸ hid)) hl
  rw [Chronicle.windowOf_visit_length] at hin'
  exact ⟨hsame, fun id hid => hnoted id (hf.secondaryIds ▸ hid), hin'⟩

theorem step_sound (h : σ.Sound W) {d d' : DataMap α} {s' : QuasiNewton α}
    (hfit : σ.chronicle.Fitting d)
    (hs : σ.scheme.step d (d.stacked σ.chronicle.dataIds) (d.stackedOld σ.chronicle.dataIds) =
      .ok (s', d')) : Sound W ⟨s', σ.chronicle.visit d⟩ := by
  obtain ⟨s₁, coefficients, -, hl, -, rfl⟩ := QuasiNewton.step_eq hs
  obtain ⟨hsame, hnoted, ks, ws, hw, hl'⟩ := learn_sound h hfit hl
  have hf := h.follows
  refine ⟨⟨hsame.config.trans hf.config, hsame.secondaryIds.trans hf.secondaryIds,
      hf.distinct, hf.separate, hsame.started.trans hf.started, hf.complete,
      hsame.sizes.trans hf.sizes, fun _ => ⟨σ.chronicle.visits.length,
        Chronicle.length_visits_visit, Chronicle.windowOf_visit_length, ?_, ?_, hnoted⟩⟩,
    ks, ws, hw, hl'.good, ?_, hl'.shaped, hl'.columns, hl'.ascending⟩
  · rw [Chronicle.data_visit_length]
    exact hfit
  · rw [Chronicle.residual_visit_length, Chronicle.iterate_visit_length]
  · rw [Chronicle.length_visits_visit]
    exact hl'.records

/-- A call is refused, or answered by a step on data that fit. -/
theorem perform_cases (h : σ.Sound W) {d : DataMap α} {reply : Reply (QuasiNewton α) α}
    (hp : σ.scheme.perform d = .ok reply) :
    (reply.answer.isOk = false ∧ Sound W ⟨reply.scheme, σ.chronicle.meet d⟩) ∨
    (reply.answer = .ok () ∧ σ.chronicle.started = true ∧
      (∀ id ∈ σ.chronicle.trackedIds, d.contains id = true) ∧ (σ.chronicle.meet d).Fitting d ∧
      (σ.scheme.adapt d).step d (d.stacked (σ.chronicle.meet d).dataIds)
        (d.stackedOld (σ.chronicle.meet d).dataIds) = .ok (reply.scheme, reply.data)) := by
  have hf := h.follows
  unfold QuasiNewton.perform at hp
  obtain ⟨answer, s', ha⟩ : ∃ answer s', σ.scheme.accept d = (answer, s') := ⟨_, _, rfl⟩
  rw [ha] at hp
  rcases QuasiNewton.accept_cases ha with ⟨rfl, ⟨fault, rfl⟩, hnot⟩ | ⟨rfl, ⟨hst, hall⟩, hans⟩
  · obtain rfl := Except.ok.inj hp
    refine .inl ⟨rfl, ?_⟩
    rw [hf.meet_eq hnot]
    exact h
  · rw [hf.started] at hst
    rw [hf.trackedIds] at hall
    have hadapt := adapt_sound h hst hall
    cases answer with
    | error fault =>
      obtain rfl := Except.ok.inj hp
      exact .inl ⟨rfl, hadapt⟩
    | ok pair =>
      obtain ⟨values, old⟩ := pair
      obtain ⟨⟨s₁, d'⟩, hs, hp⟩ := bind_ok hp
      obtain rfl := Except.ok.inj hp
      obtain ⟨hpaired, rfl, rfl⟩ := hans values old rfl
      have hids : (σ.scheme.adapt d).config.dataIds = (σ.chronicle.meet d).dataIds :=
        hadapt.follows.dataIds
      rw [hids] at hs
      refine .inr ⟨rfl, hst, hall, Chronicle.fitting_meet hst fun id hid => hpaired id ?_, hs⟩
      rw [hadapt.follows.trackedIds, Chronicle.trackedIds_meet]
      exact hid

theorem perform_sound (h : σ.Sound W) {d : DataMap α} {reply : Reply (QuasiNewton α) α}
    (hp : σ.scheme.perform d = .ok reply) :
    Sound W ⟨reply.scheme, σ.chronicle.note (.perform d) reply.answer.isOk⟩ := by
  rcases perform_cases h hp with ⟨hans, hs⟩ | ⟨hans, hst, hall, hfit, hs⟩
  · rw [hans]
    exact hs
  · rw [hans]
    exact step_sound (adapt_sound h hst hall) hfit hs

/-- Every call keeps the invariant. -/
theorem call_sound {c : Call α} (h : σ.Sound W) (hc : σ.call c = .ok σ') : σ'.Sound W := by
  cases served hc with
  | started hs => exact start_sound h hs
  | refused => exact h
  | performed hp => exact perform_sound h hp
  | converged hp => exact converged_sound h hp
  | reset => exact reset_sound h

theorem run_sound {calls : List (Call α)} (h : σ.Sound W) (hr : σ.run calls = .ok σ') :
    σ'.Sound W :=
  run_keeps call_sound h hr

end Session

end Cosimulation.Acceleration

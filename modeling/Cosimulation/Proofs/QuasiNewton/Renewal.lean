import Cosimulation.Proofs.QuasiNewton.Frame

/-!
# Dropped history leaves no trace

A scheme that was reset still holds the values that the secondary blocks had in its last call. It
never looks at them: a column is only added on a call that is not the first of its window, and by
then every secondary block has been noted anew. `Alike` relates two schemes that differ in nothing
else. All operations act alike on the two: those that do not touch the noted values do not depend on
them (`remember` commutes with each), and noting makes them agree (`noteSecondary_remember`). So the
two give the same answers and stay alike (`Alike.perform`, `Alike.converged`).

What a reset keeps besides are the settings, the block lengths and the number of rows, which
always fit each other (`Framed`, `Begun`). A scheme that was just started on data with the same
blocks has the same, and is therefore alike: to a scheme that was reset (`Begun.reset_alike`), and
to one that is about to drop its history because a block changed its length
(`Begun.perform_alike`).
-/

namespace Cosimulation.Acceleration

variable {α : Type}

/-- Two calls end in the same violation, or with the same answer and data and in related schemes. -/
inductive Agree {σ : Type} (R : σ → σ → Prop) :
    Except (Violation α) (Reply σ α) → Except (Violation α) (Reply σ α) → Prop
  | violation (v : Violation α) : Agree R (.error v) (.error v)
  | reply (answer : Except (Fault α) Unit) (d : DataMap α) {s t : σ} (h : R s t) :
    Agree R (.ok ⟨answer, s, d⟩) (.ok ⟨answer, t, d⟩)

namespace Agree

variable {σ τ : Type} {R : σ → σ → Prop} {R' : τ → τ → Prop}

theorem refl (hR : ∀ s, R s s) (x : Except (Violation α) (Reply σ α)) : Agree R x x := by
  cases x with
  | error v => exact .violation v
  | ok reply => exact .reply reply.answer reply.data (hR reply.scheme)

/-- The same calls on schemes in another presentation. -/
theorem map {f : σ → τ} {x y : Except (Violation α) (Reply σ α)} (h : Agree R x y)
    (hf : ∀ {s t}, R s t → R' (f s) (f t)) :
    Agree R' (x.map (Reply.map f)) (y.map (Reply.map f)) := by
  cases h with
  | violation v => exact .violation v
  | reply answer d h => exact .reply answer d (hf h)

end Agree

namespace QuasiNewton

/-- The scheme with other noted values of the secondary blocks. -/
def remember (m : OrderedMap (Vec α)) (s : QuasiNewton α) : QuasiNewton α :=
  { s with lastSecondary := m }

variable [Scalar α] {s t s' : QuasiNewton α} (m : OrderedMap (Vec α))

/-! ## Operations that do not look at noted values -/

omit [Scalar α] in
/-- Branches that correspond under a map. -/
theorem ite_map {σ τ : Type} {c c' : Prop} [Decidable c] [Decidable c'] (hc : c ↔ c') {f : σ → τ}
    {x y : Except (Violation α) τ} {x' y' : Except (Violation α) σ} (hx : x = f <$> x')
    (hy : y = f <$> y') : (if c then x else y) = f <$> if c' then x' else y' := by
  by_cases h : c'
  · rw [if_pos h, if_pos (hc.2 h), hx]
  · rw [if_neg h, if_neg (mt hc.1 h), hy]

theorem adapt_remember (d : DataMap α) : (s.remember m).adapt d = (s.adapt d).remember m := by
  show (if s.isRemeshed d then _ else _) = remember m (if s.isRemeshed d then _ else _)
  split <;> rfl

theorem accept_remember (d : DataMap α) :
    (s.remember m).accept d = ((s.accept d).1, (s.accept d).2.remember m) := by
  have hstarted : (s.remember m).started = s.started := rfl
  have htracked : (s.remember m).trackedIds = s.trackedIds := rfl
  have hsecondary : ((s.adapt d).remember m).secondaryIds = (s.adapt d).secondaryIds := rfl
  rw [accept, accept, adapt_remember, hstarted, htracked]
  cases s.started with
  | false => rfl
  | true =>
    cases d.requireAll s.trackedIds with
    | error f => rfl
    | ok _ =>
      simp only [Bool.not_true, Bool.false_eq_true, if_false, hsecondary]
      cases d.checkSizes (s.adapt d).secondaryIds <;> rfl

theorem reweigh_remember (v r : Vec α) :
    (s.remember m).reweigh v r = remember m <$> s.reweigh v r := by
  refine ite_map Iff.rfl rfl ?_
  simp only [map_bind]
  refine bind_congr fun unscaled => bind_congr fun p => bind_congr fun residuals => ?_
  refine ite_map Iff.rfl ?_ rfl
  simp only [dropAll, map_bind, bind_assoc]
  rfl

omit [Scalar α] in
theorem discharge_remember : (s.remember m).discharge = s.discharge.remember m := by
  show (if s.pendingClear then _ else _) = remember m (if s.pendingClear then _ else _)
  split <;> rfl

theorem drop_remember (i : Nat) : (s.remember m).drop i = remember m <$> s.drop i := by
  simp only [drop, map_bind]
  rfl

theorem adopt_remember (f : Factorization α) (residual iterate : Vec α) :
    (s.remember m).adopt f residual iterate = remember m <$> s.adopt f residual iterate :=
  ite_map Iff.rfl (drop_remember (s := { s with
    factorization := f
    history := s.history.append residual iterate }) m 0) rfl

theorem extend_remember (now : Snapshot α) : (s.remember m).extend now =
    (fun r => (r.1.remember m, r.2)) <$> s.extend now := by
  refine ite_map Iff.rfl rfl ?_
  have hlast : (s.remember m).last = s.last := rfl
  rw [hlast]
  cases s.last with
  | none => rfl
  | some last =>
    simp only [map_bind]
    refine bind_congr fun move => ite_map Iff.rfl rfl ?_
    simp only [map_bind, discharge_remember]
    refine bind_congr fun iterate => bind_congr fun residual => bind_congr fun o => ?_
    cases o with
    | none => rfl
    | some f =>
      simp only [map_bind, adopt_remember, bind_map_left]
      rfl

theorem applyFilter_remember (added : Bool) :
    (s.remember m).applyFilter added = remember m <$> s.applyFilter added := by
  refine ite_map Iff.rfl ?_ rfl
  simp only [dropAll, map_bind]
  rfl

theorem checked_remember : (s.remember m).checked = remember m <$> s.checked := by
  have hvalidate : (s.remember m).validate = s.validate := rfl
  rw [checked, checked, hvalidate]
  cases s.validate <;> rfl

theorem moveSecondary_remember (a : List α) : ∀ (ids : List DataId) (d : DataMap α),
    (s.remember m).moveSecondary a d ids = s.moveSecondary a d ids := by
  intro ids
  induction ids with
  | nil => exact fun _ => rfl
  | cons id ids ih => exact fun d => bind_congr fun d' => ih d'

theorem respond_remember (d : DataMap α) (now : Snapshot α) :
    (s.remember m).respond d now = s.respond d now := by
  have hadvance (o : Option (List α)) :
      (s.remember m).advance d now.iterate o = s.advance d now.iterate o := by
    cases o with
    | none => rfl
    | some a =>
      exact bind_congr fun update => bind_congr fun d' =>
        moveSecondary_remember m a s.secondaryIds d'
  rw [respond, respond]
  simp only [hadvance]
  rfl

theorem removeOldest_remember (n : Nat) : ∀ s : QuasiNewton α,
    (s.remember m).removeOldest n = remember m <$> s.removeOldest n := by
  induction n with
  | zero => exact fun _ => rfl
  | succ n ih =>
    intro s
    simp only [removeOldest, map_bind]
    exact bind_congr fun f => bind_congr fun h => ih { s with factorization := f, history := h }

theorem removeWindows_remember (n : Nat) : ∀ s : QuasiNewton α,
    (s.remember m).removeWindows n = remember m <$> s.removeWindows n := by
  induction n with
  | zero => exact fun _ => rfl
  | succ n ih =>
    intro s
    have hhistory : (s.remember m).history = s.history := rfl
    rw [removeWindows, removeWindows, hhistory]
    cases s.history.windows.sizes with
    | nil => rfl
    | cons size sizes =>
      have hfirst := removeOldest_remember m size
        { s with history := { s.history with windows := ⟨sizes⟩ } }
      simp only [map_bind, ← ih]
      exact (congrArg (· >>= fun s' => s'.removeWindows n) hfirst).trans
        (bind_map_left (remember m) _ (removeWindows · n))

theorem retain_remember : (s.remember m).retain = remember m <$> s.retain :=
  ite_map Iff.rfl (ite_map Iff.rfl rfl rfl) (removeWindows_remember m _ s)

/-! ## Noting the secondary blocks -/

theorem appendMove_remember {added : Bool} {id : DataId} (values : Vec α)
    (h : added = true → s.lastSecondary.find? id = m.find? id) :
    (s.remember m).appendMove added id values = s.appendMove added id values := by
  cases added with
  | false => rfl
  | true =>
    have hmove : (s.remember m).secondaryMove id values = s.secondaryMove id values := by
      rw [secondaryMove, secondaryMove, show (s.remember m).lastSecondary = m from rfl, h rfl]
    exact congrArg (· >>= _) hmove

/-- Where a column was added both have noted the same before, and both note the same now. -/
theorem noteSecondary_remember {d : DataMap α} {added : Bool} : ∀ {ids : List DataId}
    {s : QuasiNewton α} (m : OrderedMap (Vec α)),
    (added = true → ∀ id ∈ ids, s.lastSecondary.find? id = m.find? id) →
      noteSecondary d added (s.remember m) ids =
        remember (noted d ids m) <$> noteSecondary d added s ids := by
  intro ids
  induction ids with
  | nil => exact fun _ _ => rfl
  | cons id ids ih =>
    intro s m h
    simp only [noteSecondary, map_bind]
    rw [appendMove_remember m _ fun hadd => h hadd id List.mem_cons_self]
    refine bind_congr fun history => ?_
    refine ih (s := { s with
      history
      lastSecondary := s.lastSecondary.insert id (d.valuesOf id) })
      (m.insert id (d.valuesOf id)) fun hadd j hj => ?_
    rw [OrderedMap.find?_insert, OrderedMap.find?_insert, h hadd j (List.mem_cons_of_mem _ hj)]

/-! ## Alike schemes -/

/-- Two schemes differ at most in what they noted of the secondary blocks, and not even there when a
column can be added. -/
def Alike (s t : QuasiNewton α) : Prop :=
  ∃ m, t = s.remember m ∧
    (s.firstIteration = false → ∀ id ∈ s.secondaryIds, s.lastSecondary.find? id = m.find? id)

omit [Scalar α] in
theorem alike_of_first (h : s.firstIteration = true) : Alike s (s.remember m) :=
  ⟨m, rfl, fun hf => by rw [h] at hf; cases hf⟩

omit [Scalar α] in
/-- Computations that go on alike from what they have in common. -/
theorem bind_congr_ok {ε β γ : Type} {x : Except ε β} {f g : β → Except ε γ}
    (h : ∀ b, x = .ok b → f b = g b) : x >>= f = x >>= g := by
  cases x with
  | error e => rfl
  | ok b => exact h b rfl

theorem learn_remember {d : DataMap α} {now : Snapshot α}
    (h : s.firstIteration = false → ∀ id ∈ s.secondaryIds,
      s.lastSecondary.find? id = m.find? id) :
    (s.remember m).learn d now = remember (noted d s.secondaryIds m) <$> s.learn d now := by
  simp only [learn, map_bind]
  refine bind_congr_ok fun p hp => ?_
  have hreweigh := reweigh_remember (s := { s with preconditioner := p }) m now.iterate now.residual
  refine (congrArg (· >>= _) hreweigh).trans ((bind_map_left _ _ _).trans ?_)
  refine bind_congr_ok fun s₁ h₁ => ?_
  rw [extend_remember, bind_map_left]
  refine bind_congr_ok fun extended h₂ => ?_
  obtain ⟨s₂, added⟩ := extended
  have hframed₁ := reweigh_framed h₁
  obtain ⟨hframed₂, hadded⟩ := extend_framed h₂
  have hsetup := hframed₁.setup.trans hframed₂.setup
  have hids : s₂.secondaryIds = s.secondaryIds := hsetup.secondaryIds
  have hlast : s₂.lastSecondary = s.lastSecondary := hsetup.lastSecondary
  have hagree : added = true → ∀ id ∈ s₂.secondaryIds,
      s₂.lastSecondary.find? id = m.find? id := by
    intro hadd
    rw [hids, hlast]
    exact h (hframed₁.setup.firstIteration.symm.trans (hadded hadd))
  have hnote := noteSecondary_remember (d := d) m hagree
  dsimp only
  rw [show (s₂.remember m).secondaryIds = s₂.secondaryIds from rfl, hnote, hids, bind_map_left]
  exact bind_congr fun s₃ => applyFilter_remember _ added

/-- After a call both have noted the same. -/
theorem step_remember {d : DataMap α} {values old : Vec α}
    (h : s.firstIteration = false → ∀ id ∈ s.secondaryIds,
      s.lastSecondary.find? id = m.find? id) :
    (s.remember m).step d values old =
      (fun r => (r.1.remember (noted d s.secondaryIds m), r.2)) <$> s.step d values old := by
  simp only [step, map_bind, learn_remember m h, bind_map_left, respond_remember]
  refine bind_congr fun residual => bind_congr fun s₁ => bind_congr fun ⟨coefficients, d'⟩ => ?_
  have hchecked := checked_remember (s := { s₁ with
    coefficients
    last := some ⟨residual, values⟩
    firstIteration := false }) (noted d s.secondaryIds m)
  exact (congrArg (· >>= _) hchecked).trans (bind_map_left _ _ _)

/-! ## Alike schemes answer alike -/

/-- Data that come in keep what was noted, or drop the history. -/
theorem alike_of_accept {d : DataMap α} {answer : Except (Fault α) (Vec α × Vec α)}
    (h : s.firstIteration = false → ∀ id ∈ s.secondaryIds, s.lastSecondary.find? id = m.find? id)
    (ha : s.accept d = (answer, s')) :
    s'.firstIteration = false → ∀ id ∈ s'.secondaryIds,
      s'.lastSecondary.find? id = m.find? id := by
  rcases accept_cases ha with ⟨rfl, -⟩ | ⟨rfl, -⟩
  · exact h
  · unfold adapt
    split
    next => exact nofun
    next => exact h

/-- After a step, what was noted of the secondary blocks comes from its data. -/
theorem find?_step {d d' : DataMap α} {values old : Vec α}
    (h : s.step d values old = .ok (s', d')) {id : DataId} (hid : id ∈ s'.secondaryIds) :
    s'.lastSecondary.find? id = (noted d s.secondaryIds m).find? id := by
  obtain ⟨s₁, coefficients, -, hl, -, rfl⟩ := step_eq h
  obtain ⟨hframed, hnoted⟩ := learn_framed hl
  have hmem : id ∈ s.secondaryIds := hframed.setup.secondaryIds ▸ hid
  rw [show ({ s₁ with
      coefficients
      last := some ⟨values.sub old, values⟩
      firstIteration := false } : QuasiNewton α).lastSecondary = s₁.lastSecondary from rfl,
    hnoted, find?_noted, find?_noted, if_pos hmem, if_pos hmem]

theorem Alike.perform (h : Alike s t) (d : DataMap α) :
    Agree Alike (s.perform d) (t.perform d) := by
  obtain ⟨m, rfl, h⟩ := h
  obtain ⟨answer, s₁, ha⟩ : ∃ answer s₁, s.accept d = (answer, s₁) := ⟨_, _, rfl⟩
  have h₁ := alike_of_accept m h ha
  rw [QuasiNewton.perform, QuasiNewton.perform, accept_remember, ha]
  cases answer with
  | error f => exact .reply _ _ ⟨m, rfl, h₁⟩
  | ok pair =>
    obtain ⟨values, old⟩ := pair
    simp only [step_remember m h₁]
    cases hs : s₁.step d values old with
    | error v => exact .violation v
    | ok r => exact .reply _ _ ⟨_, rfl, fun _ _ hid => find?_step m hs hid⟩

theorem Alike.converged (h : Alike s t) (d : DataMap α) :
    Agree Alike (s.converged d) (t.converged d) := by
  obtain ⟨m, rfl, h⟩ := h
  have hstarted : (s.remember m).started = s.started := rfl
  rw [QuasiNewton.converged, QuasiNewton.converged, hstarted]
  split
  next => exact .reply _ _ ⟨m, rfl, h⟩
  next =>
    let finished := { s with history := { s.history with windows := s.history.windows.finish } }
    change Agree Alike (finished.retain >>= _) ((finished.remember m).retain >>= _)
    rw [retain_remember]
    cases finished.retain with
    | error v => exact .violation v
    | ok s₁ => exact .reply _ _ (alike_of_first m rfl)

theorem Alike.reset (h : Alike s t) : Alike s.reset t.reset := by
  obtain ⟨m, rfl, -⟩ := h
  exact alike_of_first m rfl

theorem Alike.start (h : Alike s t) (d : DataMap α) : s.start d = t.start d := by
  obtain ⟨m, rfl, -⟩ := h
  rfl

/-! ## Schemes that begin -/

/-- The lengths of blocks. -/
def measured (d : DataMap α) (ids : List DataId) : List (DataId × Nat) :=
  ids.filterMap fun id => (d.find? id).map fun b => (id, b.size)

omit [Scalar α] in
theorem lookup_measured {d : DataMap α} {ids : List DataId} (h : ∀ id ∈ ids, d.contains id)
    {id : DataId} (hid : id ∈ ids) :
    (measured d ids).lookup id = (d.find? id).map Block.size :=
  Session.lookup_filterMap Block.size h hid

omit [Scalar α] in
theorem mem_of_lookup_measured {d : DataMap α} {ids : List DataId} {id : DataId} {n : Nat}
    (h : (measured d ids).lookup id = some n) : id ∈ ids := by
  have hmem := (OrderedMap.isSome_lookup_iff (measured d ids) id).1 (by rw [h]; rfl)
  obtain ⟨entry, hentry, rfl⟩ := List.mem_map.1 hmem
  obtain ⟨j, hj, hsome⟩ := List.mem_filterMap.1 hentry
  obtain ⟨b, -, rfl⟩ := Option.map_eq_some_iff.1 hsome
  exact hj

/-- All blocks but the configured ones. -/
def others (config : Config α) (d : DataMap α) : List DataId :=
  d.keys.filter fun id => !config.dataIds.contains id

/-- A scheme that was just started. -/
def fresh (config : Config α) (d : DataMap α) : QuasiNewton α :=
  { ({ new config with secondaryIds := others config d }.reset.record d) with
    lastSecondary := .empty
    started := true }

theorem start_new {config : Config α} {d : DataMap α}
    (h : ∀ id ∈ config.dataIds, d.contains id) : (new config).start d = .ok (fresh config d) := by
  have hall : d.requireAll (new config).config.dataIds = .ok () := DataMap.requireAll_ok_iff.2 h
  rw [QuasiNewton.start, hall]
  rfl

/-- A scheme that has the lengths of some data does not find them changed. -/
theorem isRemeshed_record {d : DataMap α} (hall : ∀ id ∈ s.trackedIds, d.contains id) :
    (s.record d).isRemeshed d = false := by
  refine List.any_eq_false.2 fun id hid => ?_
  obtain ⟨b, hb⟩ := Option.isSome_iff_exists.1 (hall id hid)
  have hlookup : (s.record d).sizes.lookup id = some b.size :=
    (lookup_measured hall hid).trans (congrArg _ hb)
  rw [hb, hlookup]
  exact fun hne => bne_iff_ne.1 hne rfl

/-- To accept complete data with a block of another length is to drop the history first. -/
theorem accept_of_remeshed {d : DataMap α} (hst : s.started = true)
    (hall : ∀ id ∈ s.trackedIds, d.contains id) (hr : s.isRemeshed d = true) :
    s.accept d = (s.reset.record d).accept d := by
  have hstarted : (s.reset.record d).started = true := hst
  have htracked : (s.reset.record d).trackedIds = s.trackedIds := rfl
  have hreq : d.requireAll s.trackedIds = .ok () := DataMap.requireAll_ok_iff.2 hall
  have hadapt : s.adapt d = s.reset.record d := if_pos hr
  have hagain : (s.reset.record d).adapt d = s.reset.record d := by
    rw [adapt, isRemeshed_record (s := s.reset) hall]
    rfl
  rw [accept, accept, hst, hstarted, htracked, hreq]
  dsimp only
  rw [hadapt, hagain]
  rfl

/-- A scheme that was started on some data, and what was asked of it since. -/
structure Begun (config : Config α) (first : DataMap α) (s : QuasiNewton α) : Prop where
  settings : s.config = config
  started : s.started = true
  secondaryIds : s.secondaryIds = others config first
  present : ∀ id ∈ config.dataIds, first.contains id
  sizes : ∃ d : DataMap α, (∀ id ∈ s.trackedIds, d.contains id) ∧ s.sizes = measured d s.trackedIds
  weighting : s.preconditioner.config = config.preconditioner
  shaped : s.factorization.Shaped
  rows : s.factorization.rows = joint s.primarySizes

namespace Begun

variable {config : Config α} {first : DataMap α}

omit [Scalar α] in
/-- What only learns has begun as before. -/
theorem framed (h : Begun config first s) (hs : Framed s s') : Begun config first s' := by
  have htracked : s'.trackedIds = s.trackedIds := by
    rw [trackedIds, trackedIds, hs.setup.config, hs.setup.secondaryIds]
  have hsizes : s'.primarySizes = s.primarySizes := by
    rw [primarySizes, primarySizes, hs.setup.config, hs.setup.sizes]
  obtain ⟨hshaped, hrows⟩ := hs.shaped h.shaped
  refine ⟨hs.setup.config.trans h.settings, hs.setup.started.trans h.started,
    hs.setup.secondaryIds.trans h.secondaryIds, h.present, ?_, hs.weighting.trans h.weighting,
    hshaped, ?_⟩
  · rw [htracked, hs.setup.sizes]
    exact h.sizes
  · rw [hrows, hsizes, h.rows]

/-- A scheme drops its history and takes the lengths of its blocks anew. -/
theorem record (h : Begun config first s) {d : DataMap α}
    (hd : ∀ id ∈ s.trackedIds, d.contains id) : Begun config first (s.reset.record d) :=
  ⟨h.settings, h.started, h.secondaryIds, h.present, ⟨d, hd, rfl⟩, h.weighting,
    Factorization.empty_shaped _, rfl⟩

theorem reset (h : Begun config first s) : Begun config first s.reset :=
  ⟨h.settings, h.started, h.secondaryIds, h.present, h.sizes, h.weighting,
    Factorization.empty_shaped _, h.rows⟩

theorem start {d : DataMap α} (hconfig : s.config = config)
    (hweighting : s.preconditioner.config = config.preconditioner) (h : s.start d = .ok s') :
    Begun config d s' := by
  obtain ⟨hpresent, rfl⟩ := start_eq h
  rw [hconfig] at hpresent
  refine ⟨hconfig, rfl, ?_, hpresent, ⟨d, ?_, rfl⟩, hweighting, Factorization.empty_shaped _, rfl⟩
  · rw [others, ← hconfig]
    rfl
  · refine List.forall_mem_append.2 ⟨fun id hid => hpresent id (hconfig ▸ hid), fun id hid => ?_⟩
    exact OrderedMap.contains_iff_mem_keys.2 (List.mem_of_mem_filter hid)

theorem perform (h : Begun config first s) {d : DataMap α} {reply : Reply (QuasiNewton α) α}
    (hp : s.perform d = .ok reply) : Begun config first reply.scheme := by
  refine perform_keeps h (fun _ hall => ?_) (fun {s₁ _ _ _ _} h₁ _ hs => ?_) hp
  · unfold adapt
    split
    next => exact h.record hall
    next => exact h
  · obtain ⟨s₃, coefficients, -, hl, -, rfl⟩ := step_eq hs
    obtain ⟨hframed, -⟩ := learn_framed hl
    have h₃ : Begun config first s₃ := framed (s := { s₁ with lastSecondary := s₃.lastSecondary })
      ⟨h₁.settings, h₁.started, h₁.secondaryIds, h₁.present, h₁.sizes, h₁.weighting, h₁.shaped,
        h₁.rows⟩ hframed
    exact ⟨h₃.settings, h₃.started, h₃.secondaryIds, h₃.present, h₃.sizes, h₃.weighting, h₃.shaped,
      h₃.rows⟩

theorem converged (h : Begun config first s) {d : DataMap α} {reply : Reply (QuasiNewton α) α}
    (hp : s.converged d = .ok reply) : Begun config first reply.scheme := by
  unfold QuasiNewton.converged at hp
  split at hp
  next =>
    obtain rfl := Except.ok.inj hp
    exact h
  next =>
    obtain ⟨s₁, hr, hp⟩ := bind_ok hp
    obtain rfl := Except.ok.inj hp
    have hretain := retain_framed hr
    have h₁ : Begun config first s₁ :=
      h.framed ⟨hretain.setup, hretain.weighting, hretain.shaped⟩
    exact ⟨h₁.settings, h₁.started, h₁.secondaryIds, h₁.present, h₁.sizes, h₁.weighting, h₁.shaped,
      h₁.rows⟩

omit [Scalar α] in
/-- All tracked blocks are in data with the blocks of the first. -/
theorem tracked_present (h : Begun config first s) {d : DataMap α} (hd : d.keys = first.keys) :
    ∀ id ∈ s.trackedIds, d.contains id := by
  have hkeys : ∀ id, first.contains id → d.contains id := by
    intro id hid
    rw [OrderedMap.contains_iff_mem_keys] at hid ⊢
    rwa [hd]
  intro id hid
  rw [trackedIds, h.settings, h.secondaryIds, List.mem_append] at hid
  rcases hid with hid | hid
  · exact hkeys id (h.present id hid)
  · exact hkeys id (OrderedMap.contains_iff_mem_keys.2 (List.mem_of_mem_filter hid))

/-- The history dropped and the lengths taken from data with the same blocks, what is left is a
scheme that starts on them. -/
theorem reset_record_eq (h : Begun config first s) {d : DataMap α} (hd : d.keys = first.keys) :
    s.reset.record d = (fresh config d).remember s.lastSecondary := by
  have hfit : ∀ sizes, s.preconditioner.fit sizes =
      (Preconditioner.new config.preconditioner).fit sizes := by
    intro sizes
    rw [Preconditioner.fit, h.weighting]
    rfl
  have hids : s.secondaryIds = others config d := by
    rw [h.secondaryIds, others, others, hd]
  obtain ⟨config', ids, p, f, history, last, lastSecondary, coefficients, sizes, firstIteration,
    firstWindow, pendingClear, started⟩ := s
  obtain rfl : config' = config := h.settings
  obtain rfl : started = true := h.started
  obtain rfl : ids = others config' d := hids
  -- only the weights are fitted from different states, and to the same lengths
  exact congrArg (fun q => { (fresh config' d).remember lastSecondary with preconditioner := q })
    (hfit (fresh config' d).primarySizes)

/-- Data whose blocks have the recorded lengths change nothing when their lengths are recorded. -/
theorem reset_record_of_sizes (h : Begun config first s) {d : DataMap α}
    (hsizes : s.sizes = measured d s.trackedIds) : s.reset.record d = s.reset := by
  have hrecord : s.reset.record d = { s.reset with
      sizes := measured d s.trackedIds
      factorization := .empty (joint (primarySizes { s with sizes := measured d s.trackedIds }))
      preconditioner := s.preconditioner.fit
        (primarySizes { s with sizes := measured d s.trackedIds }) } := rfl
  rw [hrecord, ← hsizes]
  exact congrArg (fun n : Nat => { s.reset with factorization := .empty n }) h.rows.symm

omit [Scalar α] in
/-- Data that have the recorded lengths. -/
theorem sizes_eq (h : Begun config first s) {d : DataMap α}
    (hd : ∀ id n, s.sizes.lookup id = some n → (d.find? id).map Block.size = some n) :
    s.sizes = measured d s.trackedIds := by
  obtain ⟨d₀, hall, hsizes⟩ := h.sizes
  rw [hsizes, measured, measured]
  refine List.filterMap_congr fun id hid => ?_
  obtain ⟨b, hb⟩ := Option.isSome_iff_exists.1 (hall id hid)
  have hlookup : s.sizes.lookup id = some b.size := by
    rw [hsizes, lookup_measured hall hid, hb, Option.map_some]
  obtain ⟨c, hc, hsize⟩ := Option.map_eq_some_iff.1 (hd id b.size hlookup)
  rw [hb, hc, Option.map_some, Option.map_some, hsize]

/-- A scheme that was reset is like one that starts on data with the recorded lengths. -/
theorem reset_alike (h : Begun config first s) {d : DataMap α} (hkeys : d.keys = first.keys)
    (hd : ∀ id n, s.sizes.lookup id = some n → (d.find? id).map Block.size = some n) :
    Alike (fresh config d) s.reset := by
  rw [← h.reset_record_of_sizes (h.sizes_eq hd), h.reset_record_eq hkeys]
  exact alike_of_first _ rfl

omit [Scalar α] in
/-- A block of another length than recorded is noticed. -/
theorem isRemeshed (h : Begun config first s) {d : DataMap α}
    (hall : ∀ id ∈ s.trackedIds, d.contains id) {id : DataId} {n : Nat}
    (hn : s.sizes.lookup id = some n) (hd : (d.find? id).map Block.size ≠ some n) :
    s.isRemeshed d = true := by
  obtain ⟨d₀, -, hsizes⟩ := h.sizes
  have hid : id ∈ s.trackedIds := mem_of_lookup_measured (hsizes ▸ hn)
  obtain ⟨b, hb⟩ := Option.isSome_iff_exists.1 (hall id hid)
  rw [hb, Option.map_some, ne_eq, Option.some.injEq] at hd
  refine List.any_eq_true.2 ⟨id, hid, ?_⟩
  rw [hb, hn]
  exact bne_iff_ne.2 (Ne.symm hd)

/-- A call on data in which a block has another length than recorded is like the call on a scheme
that starts on them. -/
theorem perform_alike (h : Begun config first s) {d : DataMap α} (hkeys : d.keys = first.keys)
    {id : DataId} {n : Nat} (hn : s.sizes.lookup id = some n)
    (hd : (d.find? id).map Block.size ≠ some n) :
    Agree Alike ((fresh config d).perform d) (s.perform d) := by
  have hall := h.tracked_present hkeys
  have haccept := accept_of_remeshed h.started hall (h.isRemeshed hall hn hd)
  have hperform : s.perform d = (s.reset.record d).perform d := by
    rw [QuasiNewton.perform, QuasiNewton.perform, haccept]
  rw [hperform, h.reset_record_eq hkeys]
  exact Alike.perform (alike_of_first _ rfl) d

end Begun

end QuasiNewton

end Cosimulation.Acceleration

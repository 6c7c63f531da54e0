import Cosimulation.Proofs.QuasiNewton.Alignment

/-!
# What a call leaves alone

Whatever a scheme learns, its settings stay, and so do the shape of its factorization, the number of
rows and the settings of the weights. `Framed` says so of two states; the operations a call is made
of keep it, one lemma each, whether or not the columns are in step. A call as a whole changes in
addition what it noted of the secondary blocks, which is `noted` of its data (`learn_framed`).
-/

namespace Cosimulation.Acceleration

variable {α : Type} [Scalar α]

theorem Preconditioner.update_config {p p' : Preconditioner α} {v r : Vec α}
    (h : p.update v r = .ok p') : p'.config = p.config := by
  unfold update at h
  split at h
  next => rw [Except.ok.inj h]
  next =>
    obtain ⟨weights, -, h⟩ := bind_ok h
    rw [← Except.ok.inj h]

namespace QuasiNewton

/-- Settings, shape and number of rows are as before. -/
structure Framed (s s' : QuasiNewton α) : Prop where
  setup : SameSetup s s'
  weighting : s'.preconditioner.config = s.preconditioner.config
  shaped : s.factorization.Shaped →
    s'.factorization.Shaped ∧ s'.factorization.rows = s.factorization.rows

variable {s s' s'' : QuasiNewton α}

namespace Framed

omit [Scalar α]

theorem refl (s : QuasiNewton α) : Framed s s := ⟨rfl, rfl, fun h => ⟨h, rfl⟩⟩

theorem trans (h : Framed s s') (h' : Framed s' s'') : Framed s s'' := by
  refine ⟨h.setup.trans h'.setup, h'.weighting.trans h.weighting, fun hs => ?_⟩
  obtain ⟨hs', hr⟩ := h.shaped hs
  obtain ⟨hs'', hr'⟩ := h'.shaped hs'
  exact ⟨hs'', hr'.trans hr⟩

/-- Only the noted values changed in between. -/
theorem withLastSecondary (h : Framed s s') (m : OrderedMap (Vec α)) :
    Framed { s with lastSecondary := m } { s' with lastSecondary := m } :=
  ⟨h.setup.withLastSecondary m, h.weighting, h.shaped⟩

end Framed

/-! ## The parts of a call -/

omit [Scalar α] in
theorem dropAll_framed {positions : List Nat} (h : s.dropAll positions = .ok s') :
    Framed s s' := by
  obtain ⟨history, -, h⟩ := bind_ok h
  obtain rfl := Except.ok.inj h
  exact ⟨rfl, rfl, fun hs => ⟨hs, rfl⟩⟩

theorem drop_framed {i : Nat} (h : s.drop i = .ok s') : Framed s s' := by
  obtain ⟨f, hf, h⟩ := bind_ok h
  obtain ⟨history, -, h⟩ := bind_ok h
  obtain rfl := Except.ok.inj h
  refine ⟨rfl, rfl, fun hs => ?_⟩
  obtain ⟨hs', hr, -⟩ := Factorization.delete_shaped hs hf
  exact ⟨hs', hr⟩

theorem reweigh_framed {v r : Vec α} (h : s.reweigh v r = .ok s') : Framed s s' := by
  unfold reweigh at h
  split at h
  next =>
    obtain rfl := Except.ok.inj h
    exact .refl s
  next =>
    obtain ⟨unscaled, -, h⟩ := bind_ok h
    obtain ⟨p, hp, h⟩ := bind_ok h
    obtain ⟨residuals, -, h⟩ := bind_ok h
    have hconfig := Preconditioner.update_config hp
    dsimp only at h
    split at h
    next =>
      obtain ⟨⟨f, refused⟩, hf, h⟩ := bind_ok h
      obtain ⟨s₁, hd, h⟩ := bind_ok h
      obtain rfl := Except.ok.inj h
      obtain ⟨hshaped, hrows, -⟩ := Factorization.rebuild_shaped hf
      have hd := dropAll_framed hd
      refine ⟨hd.setup, hd.weighting.trans hconfig, fun _ => ?_⟩
      obtain ⟨hs', hr⟩ := hd.shaped hshaped
      exact ⟨hs', hr.trans hrows⟩
    next =>
      obtain rfl := Except.ok.inj h
      exact ⟨rfl, hconfig, fun hs => ⟨hs, rfl⟩⟩

omit [Scalar α] in
theorem discharge_framed (s : QuasiNewton α) : Framed s s.discharge := by
  unfold discharge
  split
  next => exact ⟨rfl, rfl, fun _ => ⟨Factorization.empty_shaped _, rfl⟩⟩
  next => exact .refl s

theorem adopt_framed {v residual iterate : Vec α} {f : Factorization α}
    (hf : s.factorization.insert v = .ok (some f)) (h : s.adopt f residual iterate = .ok s') :
    Framed s s' := by
  have hgrown : Framed s
      { s with factorization := f, history := s.history.append residual iterate } := by
    refine ⟨rfl, rfl, fun hs => ?_⟩
    obtain ⟨hs', hr, -⟩ := Factorization.insert_shaped hs hf
    exact ⟨hs', hr⟩
  unfold adopt at h
  dsimp only at h
  split at h
  next => exact hgrown.trans (drop_framed h)
  next =>
    obtain rfl := Except.ok.inj h
    exact hgrown

/-- No column is added, and the history may have been discharged all the same; or this is not the
first call of a window, and one is added to the discharged history. -/
theorem extend_parts {now : Snapshot α} {added : Bool} (h : s.extend now = .ok (s', added)) :
    (added = false ∧ (s' = s ∨ s' = s.discharge)) ∨
      (added = true ∧ s.firstIteration = false ∧ ∃ f residual iterate,
        s.discharge.factorization.insert residual = .ok (some f) ∧
          s.discharge.adopt f residual iterate = .ok s') := by
  unfold extend at h
  split at h
  next =>
    obtain ⟨rfl, rfl⟩ := Prod.mk.inj (Except.ok.inj h)
    exact .inl ⟨rfl, .inl rfl⟩
  next hfirst =>
    rw [not_or, Bool.not_eq_true] at hfirst
    split at h
    next =>
      obtain ⟨rfl, rfl⟩ := Prod.mk.inj (Except.ok.inj h)
      exact .inl ⟨rfl, .inl rfl⟩
    next =>
      obtain ⟨move, -, h⟩ := bind_ok h
      split at h
      next =>
        obtain ⟨rfl, rfl⟩ := Prod.mk.inj (Except.ok.inj h)
        exact .inl ⟨rfl, .inl rfl⟩
      next =>
        obtain ⟨iterate, -, h⟩ := bind_ok h
        obtain ⟨residual, -, h⟩ := bind_ok h
        obtain ⟨o, hf, h⟩ := bind_ok h
        cases o with
        | none =>
          obtain ⟨rfl, rfl⟩ := Prod.mk.inj (Except.ok.inj h)
          exact .inl ⟨rfl, .inr rfl⟩
        | some f =>
          obtain ⟨s₁, ha, h⟩ := bind_ok h
          obtain ⟨rfl, rfl⟩ := Prod.mk.inj (Except.ok.inj h)
          exact .inr ⟨rfl, hfirst.1, f, residual, iterate, hf, ha⟩

/-- A column is only added after the first call of a window. -/
theorem extend_framed {now : Snapshot α} {added : Bool} (h : s.extend now = .ok (s', added)) :
    Framed s s' ∧ (added = true → s.firstIteration = false) := by
  rcases extend_parts h with ⟨rfl, rfl | rfl⟩ | ⟨-, hfirst, f, residual, iterate, hf, ha⟩
  · exact ⟨.refl s', fun hno => absurd hno Bool.false_ne_true⟩
  · exact ⟨discharge_framed s, fun hno => absurd hno Bool.false_ne_true⟩
  · exact ⟨(discharge_framed s).trans (adopt_framed hf ha), fun _ => hfirst⟩

theorem applyFilter_framed {added : Bool} (h : s.applyFilter added = .ok s') : Framed s s' := by
  unfold applyFilter at h
  split at h
  next =>
    obtain ⟨⟨f, removed⟩, hf, h⟩ := bind_ok h
    have hd := dropAll_framed h
    refine ⟨hd.setup, hd.weighting, fun hs => ?_⟩
    obtain ⟨hs₁, hr₁, -⟩ := Filter.apply_shaped hs hf
    obtain ⟨hs₂, hr₂⟩ := hd.shaped hs₁
    exact ⟨hs₂, hr₂.trans hr₁⟩
  next =>
    obtain rfl := Except.ok.inj h
    exact .refl s

/-! ## The secondary blocks -/

/-- The noted values after the data of a call. -/
def noted (d : DataMap α) (ids : List DataId) (m : OrderedMap (Vec α)) : OrderedMap (Vec α) :=
  ids.foldl (fun m id => m.insert id (d.valuesOf id)) m

omit [Scalar α] in
theorem find?_noted {d : DataMap α} {id : DataId} : ∀ (ids : List DataId)
    (m : OrderedMap (Vec α)), (noted d ids m).find? id =
      if id ∈ ids then some (d.valuesOf id) else m.find? id := by
  intro ids
  induction ids with
  | nil => simp [noted]
  | cons j ids ih =>
    intro m
    rw [noted, List.foldl_cons, ← noted, ih, OrderedMap.find?_insert]
    by_cases hid : id ∈ ids
    · simp [hid]
    · by_cases hj : id = j <;> simp [hid, hj]

/-- Noting the secondary blocks touches their lists and nothing else. -/
theorem noteSecondary_only {d : DataMap α} {added : Bool} : ∀ {ids : List DataId}
    {s s' : QuasiNewton α}, noteSecondary d added s ids = .ok s' →
      ∃ secondary lastSecondary,
        s' = { s with history := { s.history with secondary }, lastSecondary } := by
  intro ids
  induction ids with
  | nil =>
    intro s s' h
    obtain rfl := Except.ok.inj h
    exact ⟨_, _, rfl⟩
  | cons id ids ih =>
    intro s s' h
    obtain ⟨history, hh, h⟩ := bind_ok h
    obtain ⟨secondary, lastSecondary, rfl⟩ := ih h
    unfold appendMove at hh
    split at hh
    next =>
      obtain ⟨move, -, hh⟩ := bind_ok hh
      obtain rfl := Except.ok.inj hh
      exact ⟨_, _, rfl⟩
    next =>
      obtain rfl := Except.ok.inj hh
      exact ⟨_, _, rfl⟩

theorem noteSecondary_framed {d : DataMap α} {added : Bool} : ∀ {ids : List DataId}
    {s s' : QuasiNewton α}, noteSecondary d added s ids = .ok s' →
      Framed { s with lastSecondary := s'.lastSecondary } s' ∧
        s'.lastSecondary = noted d ids s.lastSecondary := by
  intro ids
  induction ids with
  | nil =>
    intro s s' h
    obtain rfl := Except.ok.inj h
    exact ⟨.refl s, rfl⟩
  | cons id ids ih =>
    intro s s' h
    obtain ⟨history, -, h⟩ := bind_ok h
    obtain ⟨hframed, hnoted⟩ := ih h
    exact ⟨⟨hframed.setup, hframed.weighting, hframed.shaped⟩, hnoted⟩

/-- A call changes the columns, their weights, and what was noted of the secondary blocks. -/
theorem learn_framed {d : DataMap α} {now : Snapshot α} (h : s.learn d now = .ok s') :
    Framed { s with lastSecondary := s'.lastSecondary } s' ∧
      s'.lastSecondary = noted d s.secondaryIds s.lastSecondary := by
  obtain ⟨p, hp, h⟩ := bind_ok h
  obtain ⟨s₁, h₁, h⟩ := bind_ok h
  obtain ⟨⟨s₂, added⟩, h₂, h⟩ := bind_ok h
  obtain ⟨s₃, h₃, h⟩ := bind_ok h
  have h₀ : Framed s { s with preconditioner := p } := by
    obtain ⟨sums, rfl⟩ := Preconditioner.accumulate_eq hp
    exact ⟨rfl, rfl, fun hs => ⟨hs, rfl⟩⟩
  have hbefore := (h₀.trans (reweigh_framed h₁)).trans (extend_framed h₂).1
  obtain ⟨hframed, hnoted⟩ := noteSecondary_framed h₃
  have hafter := applyFilter_framed h
  rw [hafter.setup.lastSecondary]
  refine ⟨((hbefore.withLastSecondary _).trans hframed).trans hafter, ?_⟩
  rw [hnoted, hbefore.setup.lastSecondary, hbefore.setup.secondaryIds]

/-- A remeshing changes no settings. -/
theorem adapt_settings (s : QuasiNewton α) (d : DataMap α) :
    (s.adapt d).config = s.config ∧ (s.adapt d).trackedIds = s.trackedIds := by
  unfold adapt
  split
  next => exact ⟨rfl, rfl⟩
  next => exact ⟨rfl, rfl⟩

theorem learn_settings {d : DataMap α} {now : Snapshot α} (h : s.learn d now = .ok s') :
    s'.config = s.config ∧ s'.trackedIds = s.trackedIds := by
  have hsetup := (learn_framed h).1.setup
  exact ⟨hsetup.config, by rw [trackedIds, trackedIds, hsetup.config, hsetup.secondaryIds]⟩

/-! ## The end of a window -/

theorem removeOldest_framed : ∀ {n : Nat} {s s' : QuasiNewton α},
    s.removeOldest n = .ok s' → Framed s s' := by
  intro n
  induction n with
  | zero =>
    intro s s' h
    obtain rfl := Except.ok.inj h
    exact .refl s
  | succ n ih =>
    intro s s' h
    obtain ⟨f, hf, h⟩ := bind_ok h
    obtain ⟨history, -, h⟩ := bind_ok h
    have hfirst : Framed s { s with factorization := f, history } := by
      refine ⟨rfl, rfl, fun hs => ?_⟩
      obtain ⟨hs', hr, -⟩ := Factorization.delete_shaped hs hf
      exact ⟨hs', hr⟩
    exact hfirst.trans (ih h)

theorem removeWindows_framed : ∀ {n : Nat} {s s' : QuasiNewton α},
    s.removeWindows n = .ok s' → Framed s s' := by
  intro n
  induction n with
  | zero =>
    intro s s' h
    obtain rfl := Except.ok.inj h
    exact .refl s
  | succ n ih =>
    intro s s' h
    unfold removeWindows at h
    split at h
    next =>
      obtain rfl := Except.ok.inj h
      exact .refl s
    next =>
      obtain ⟨s₁, h₁, h⟩ := bind_ok h
      have hcolumns := removeOldest_framed h₁
      have hfirst : Framed s s₁ := ⟨hcolumns.setup, hcolumns.weighting, hcolumns.shaped⟩
      exact hfirst.trans (ih h)

theorem retain_framed (h : s.retain = .ok s') : Framed s s' := by
  unfold retain at h
  split at h
  next =>
    split at h
    next =>
      obtain rfl := Except.ok.inj h
      exact ⟨rfl, rfl, fun _ => ⟨Factorization.empty_shaped _, rfl⟩⟩
    next =>
      obtain rfl := Except.ok.inj h
      exact ⟨rfl, rfl, fun hs => ⟨hs, rfl⟩⟩
  next => exact removeWindows_framed h

/-! ## The weights

Of the parts of a call only the first two touch the weights, and the end of a window does not. -/

theorem drop_preconditioner {i : Nat} (h : s.drop i = .ok s') :
    s'.preconditioner = s.preconditioner := by
  obtain ⟨f, -, h⟩ := bind_ok h
  obtain ⟨history, -, h⟩ := bind_ok h
  obtain rfl := Except.ok.inj h
  rfl

omit [Scalar α] in
theorem discharge_preconditioner (s : QuasiNewton α) :
    s.discharge.preconditioner = s.preconditioner := by
  unfold discharge
  split <;> rfl

theorem extend_preconditioner {now : Snapshot α} {added : Bool}
    (h : s.extend now = .ok (s', added)) : s'.preconditioner = s.preconditioner := by
  rcases extend_parts h with ⟨-, rfl | rfl⟩ | ⟨-, -, f, residual, iterate, -, ha⟩
  · rfl
  · exact discharge_preconditioner s
  · refine Eq.trans ?_ (discharge_preconditioner s)
    unfold adopt at ha
    dsimp only at ha
    split at ha
    next =>
      have hdropped := drop_preconditioner ha
      exact hdropped
    next =>
      obtain rfl := Except.ok.inj ha
      rfl

theorem applyFilter_preconditioner {added : Bool} (h : s.applyFilter added = .ok s') :
    s'.preconditioner = s.preconditioner := by
  unfold applyFilter at h
  split at h
  next =>
    obtain ⟨⟨f, removed⟩, -, h⟩ := bind_ok h
    obtain ⟨history, -, h⟩ := bind_ok h
    obtain rfl := Except.ok.inj h
    rfl
  next =>
    obtain rfl := Except.ok.inj h
    rfl

theorem removeOldest_preconditioner : ∀ {n : Nat} {s s' : QuasiNewton α},
    s.removeOldest n = .ok s' → s'.preconditioner = s.preconditioner := by
  intro n
  induction n with
  | zero =>
    intro s s' h
    obtain rfl := Except.ok.inj h
    rfl
  | succ n ih =>
    intro s s' h
    obtain ⟨f, -, h⟩ := bind_ok h
    obtain ⟨history, -, h⟩ := bind_ok h
    have hrest := ih h
    exact hrest

theorem removeWindows_preconditioner : ∀ {n : Nat} {s s' : QuasiNewton α},
    s.removeWindows n = .ok s' → s'.preconditioner = s.preconditioner := by
  intro n
  induction n with
  | zero =>
    intro s s' h
    obtain rfl := Except.ok.inj h
    rfl
  | succ n ih =>
    intro s s' h
    unfold removeWindows at h
    split at h
    next =>
      obtain rfl := Except.ok.inj h
      rfl
    next =>
      obtain ⟨s₁, h₁, h⟩ := bind_ok h
      have hcolumns := removeOldest_preconditioner h₁
      exact (ih h).trans hcolumns

theorem retain_preconditioner (h : s.retain = .ok s') :
    s'.preconditioner = s.preconditioner := by
  unfold retain at h
  split at h
  next =>
    split at h
    next =>
      obtain rfl := Except.ok.inj h
      rfl
    next =>
      obtain rfl := Except.ok.inj h
      rfl
  next => exact removeWindows_preconditioner h

end QuasiNewton

end Cosimulation.Acceleration

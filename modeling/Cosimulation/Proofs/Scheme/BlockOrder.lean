import Cosimulation.Proofs.QuasiNewton.BlockOrder
import Cosimulation.Proofs.Scheme.Watching

/-!
# Schemes that name the blocks in another order

The order in which the settings name the primary blocks decides how their values are stacked, and
nothing else: `watch_reordered`. For quasi-Newton schemes this is said of the weights in
`QuasiNewton.BlockOrder` and of everything else in `QuasiNewton.Matching`.

An Aitken scheme compares its residual with the last one row by row, and notices that the blocks
changed their lengths by the length of the residual alone. If lengths change within a window and the
total does not, it compares rows of different blocks, and which ones depends on the order
(`secantFactor_traded`). So for Aitken schemes it is assumed that the total tells (`Telling`).
-/

namespace Cosimulation.Acceleration

/-! ## Aitken schemes side by side -/

namespace Aitken

/-- If a block changed its length, so did all blocks together. -/
def Tells {α : Type} (ids : List DataId) (before now : DataMap α) : Prop :=
  (now.stacked ids).length = (before.stacked ids).length →
    ∀ id ∈ ids, (now.valuesOf id).length = (before.valuesOf id).length

/-- Two Aitken schemes that name blocks in two orders and were asked the same. `seen` is what the
last call of the window worked on. -/
structure Beside (ids ids' : List DataId) (seen : Option (DataMap ℝ)) (s s' : Aitken ℝ) : Prop where
  dataIds : s.dataIds = ids
  dataIds' : s'.dataIds = ids'
  initial : s'.initial = s.initial
  factor : s'.factor = s.factor
  iteration : s'.iteration = s.iteration
  length : s'.residual.map List.length = s.residual.map List.length
  last : 0 < s.iteration → ∃ d ∈ seen, (∀ id ∈ ids, d.Paired id) ∧
    s.residual = some (residualOf ids d) ∧ s'.residual = some (residualOf ids' d)

variable {ids ids' : List DataId} {seen : Option (DataMap ℝ)} {s s' : Aitken ℝ} {d : DataMap ℝ}

theorem Beside.reset (h : Beside ids ids' seen s s') (seen₁ : Option (DataMap ℝ)) :
    Beside ids ids' seen₁ s.reset s'.reset :=
  ⟨h.dataIds, h.dataIds', h.initial, h.initial, rfl, rfl, fun hpos => absurd hpos (Nat.lt_irrefl 0)⟩

theorem Beside.converged (h : Beside ids ids' seen s s') (seen₁ : Option (DataMap ℝ)) :
    Beside ids ids' seen₁ s.converged s'.converged :=
  ⟨h.dataIds, h.dataIds', h.initial, h.factor, rfl, h.length,
    fun hpos => absurd hpos (Nat.lt_irrefl 0)⟩

/-- Both start afresh, or neither does. -/
theorem Beside.adapt (h : Beside ids ids' seen s s') {r r' : Vec ℝ} (hl : r'.length = r.length) :
    Beside ids ids' seen (s.adapt r) (s'.adapt r') := by
  have hlength := h.length
  unfold Aitken.adapt
  cases hr : s.residual with
  | none =>
    rw [hr, Option.map_none, Option.map_eq_none_iff] at hlength
    rw [hlength]
    exact h
  | some last =>
    rw [hr, Option.map_some, Option.map_eq_some_iff] at hlength
    obtain ⟨last', hr', hlast⟩ := hlength
    rw [hr']
    dsimp only
    rw [hlast, hl]
    split
    · exact h
    · exact h.reset seen

theorem secantFactor_relaid {κ : Type} {rows rows' : List κ} (hrows : rows.Perm rows') (ω : ℝ)
    {last last' r r' : Vec ℝ} (hlast : Relaid rows rows' 1 last last')
    (hr : Relaid rows rows' 1 r r') : secantFactor ω last' r' = secantFactor ω last r := by
  have hminus := Vec.minus_ok_iff.2 ⟨hr.length.trans hlast.length.symm, rfl⟩
  have hminus' := Vec.minus_ok_iff.2 ⟨hr.length'.trans hlast.length'.symm, rfl⟩
  have hchange := hr.sub hlast
  rw [secantFactor, secantFactor, hminus, hminus', ok_bind, ok_bind]
  dsimp only
  rw [hchange.dot hrows hchange, hlast.dot hrows hchange, mul_one, one_mul, one_mul]

/-- Two blocks, and the same blocks after a row passed from the second to the first. -/
def beforeTrade : DataMap ℝ := .ofList [(0, ⟨[1], [0], 1⟩), (1, ⟨[1, 0], [0, 0], 1⟩)]

def afterTrade : DataMap ℝ := .ofList [(0, ⟨[1, 0], [0, 0], 1⟩), (1, ⟨[0], [0], 1⟩)]

/-- Residuals of one length whose rows belong to different blocks: here the order matters. -/
theorem secantFactor_traded :
    secantFactor (1 / 2) (residualOf [0, 1] beforeTrade) (residualOf [0, 1] afterTrade) =
        .ok (1 / 2) ∧
      secantFactor (1 / 2) (residualOf [1, 0] beforeTrade) (residualOf [1, 0] afterTrade) =
        .ok (1 / 3) := by
  have hrows : residualOf [0, 1] beforeTrade = [1 - 0, 1 - 0, 0 - 0] ∧
      residualOf [0, 1] afterTrade = [1 - 0, 0 - 0, 0 - 0] ∧
      residualOf [1, 0] beforeTrade = [1 - 0, 0 - 0, 1 - 0] ∧
      residualOf [1, 0] afterTrade = [0 - 0, 1 - 0, 0 - 0] := ⟨rfl, rfl, rfl, rfl⟩
  obtain ⟨h₁, h₂, h₃, h₄⟩ := hrows
  rw [h₁, h₂, h₃, h₄]
  norm_num [secantFactor, Vec.minus, Vec.sub, Vec.dot, Vec.sum, vanishing, ok_bind]

/-- Both arrive at one factor, if the last residual has the rows of this one. -/
theorem Beside.nextFactor (hids : ids.Perm ids') (h : Beside ids ids' seen s s')
    (hpaired : ∀ id ∈ ids, d.Paired id) (htells : ∀ before ∈ seen, Tells ids before d)
    (hlast : ∀ last, s.residual = some last → (residualOf ids d).length = last.length) :
    s'.nextFactor (residualOf ids' d) = s.nextFactor (residualOf ids d) := by
  by_cases hpos : 0 < s.iteration
  · obtain ⟨before, hbefore, hpairs, hr, hr'⟩ := h.last hpos
    have hsizes := htells before hbefore (by
      rw [← length_residualOf hpaired, hlast _ hr, length_residualOf hpairs])
    have hrelaid : Relaid (blockRows (fun id => (before.valuesOf id).length) ids)
        (blockRows (fun id => (before.valuesOf id).length) ids') 1 (residualOf ids before)
        (residualOf ids' before) := DataMap.relaid_residual hids fun id hid => ⟨hpairs id hid, rfl⟩
    rw [Aitken.nextFactor, Aitken.nextFactor, hr, hr']
    dsimp only
    rw [h.iteration, if_pos hpos, if_pos hpos, h.factor]
    exact secantFactor_relaid (blockRows_perm hids) _ hrelaid
      (DataMap.relaid_residual hids fun id hid => ⟨hpaired id hid, hsizes id hid⟩)
  · rw [nextFactor_first hpos, nextFactor_first (h.iteration ▸ hpos), h.initial, h.factor]

/-- Both answer a call, with the same data, or refuse it. -/
theorem Beside.perform (hids : ids.Perm ids') (h : Beside ids ids' seen s s')
    (htells : ∀ r, s.perform d = .ok r → r.answer.isOk = true →
      ∀ before ∈ seen, Tells ids before d) :
    ∃ r r', s.perform d = .ok r ∧ s'.perform d = .ok r' ∧ r'.answer.isOk = r.answer.isOk ∧
      r'.data = r.data ∧ Beside ids ids' (if r.answer.isOk then some d else seen) r.scheme
        r'.scheme := by
  obtain ⟨rfl, rfl⟩ : s.dataIds = ids ∧ s'.dataIds = ids' := ⟨h.dataIds, h.dataIds'⟩
  have hboth : (∀ id ∈ d.keys ++ s'.dataIds, d.Paired id) ↔
      ∀ id ∈ d.keys ++ s.dataIds, d.Paired id :=
    forall_congr' fun id => imp_congr_left (hids.append_left d.keys).mem_iff.symm
  by_cases hp : ∀ id ∈ d.keys ++ s.dataIds, d.Paired id
  · obtain ⟨factor, relaxed, stored, hf, hr, hs, hreply⟩ := perform_of_paired hp
    obtain ⟨factor', relaxed', stored', hf', hr', hs', hreply'⟩ := perform_of_paired (hboth.2 hp)
    have hpaired := (List.forall_mem_append.1 hp).2
    have hl : (residualOf s'.dataIds d).length = (residualOf s.dataIds d).length := by
      rw [length_residualOf hpaired,
        length_residualOf fun id hid => hpaired id (hids.mem_iff.2 hid)]
      exact (hids.flatMap_right _).length_eq.symm
    have hadapt := h.adapt hl
    have hsame := hadapt.nextFactor hids hpaired (htells _ hreply rfl)
      fun last => length_adapt
    obtain rfl := Except.ok.inj (hf'.symm.trans (hsame.trans hf))
    obtain rfl := Except.ok.inj (hr'.symm.trans hr)
    obtain rfl := Except.ok.inj (hs'.symm.trans hs)
    exact ⟨_, _, hreply, hreply', rfl, rfl, hadapt.dataIds, hadapt.dataIds', hadapt.initial, rfl,
      congrArg (· + 1) hadapt.iteration, congrArg some hl, fun _ => ⟨d, rfl, hpaired, rfl, rfl⟩⟩
  · obtain ⟨fault, hreply⟩ := perform_of_not_paired hp
    obtain ⟨fault', hreply'⟩ := perform_of_not_paired (mt hboth.1 hp)
    exact ⟨_, _, hreply, hreply', rfl, rfl, h⟩

end Aitken

namespace Coupled

section
variable {α : Type} [Scalar α]

/-- What the last call of the window worked on, after a further event. -/
def lastCall (seen : Option (DataMap α)) (γ : Coupled α) (answered : Bool) :
    Event α → Option (DataMap α)
  | .perform => if answered then some γ.data else seen
  | .converged | .reset => none
  | .start | .edit _ => seen

/-- In none of the events a block changes its length between two calls of a window while all blocks
together keep theirs. -/
def Telling (ids : List DataId) : Option (DataMap α) → Coupled α → List (Event α) → Prop
  | _, _, [] => True
  | seen, γ, e :: es => ∀ answer γ', γ.step e = .ok (answer, γ') →
      (e = .perform → answer.isOk = true → ∀ before ∈ seen, Aitken.Tells ids before γ.data) ∧
        Telling ids (lastCall seen γ answer.isOk e) γ' es

end

/-- Two Aitken schemes on the same data, before events during which the lengths tell. -/
inductive AitkenBeside (ids ids' : List DataId) :
    List (Event ℝ) → Coupled ℝ → Coupled ℝ → Prop
  | mk {seen : Option (DataMap ℝ)} {s s' : Aitken ℝ} {es : List (Event ℝ)} (data : DataMap ℝ)
      (beside : s.Beside ids ids' seen s') (telling : Telling ids seen ⟨.aitken s, data⟩ es) :
      AitkenBeside ids ids' es ⟨.aitken s, data⟩ ⟨.aitken s', data⟩

variable {ids ids' : List DataId} {γ γ' : Coupled ℝ} {e : Event ℝ} {es : List (Event ℝ)}

theorem AitkenBeside.sight (h : AitkenBeside ids ids' es γ γ') (answered : Bool) :
    γ'.sight answered = γ.sight answered := by
  obtain ⟨data, hbeside, -⟩ := h
  rw [Coupled.sight, Coupled.sight, Scheme.outcome, Scheme.outcome, hbeside.factor]

theorem AitkenBeside.step (hids : ids.Perm ids') (h : AitkenBeside ids ids' (e :: es) γ γ') :
    StepsWith (AitkenBeside ids ids' es) e γ γ' := by
  obtain @⟨seen, s, s', _, data, hbeside, htelling⟩ := h
  cases e with
  | start =>
    have hboth : data.requireAll s'.dataIds = .ok () ↔ data.requireAll s.dataIds = .ok () := by
      rw [DataMap.requireAll_ok_iff, DataMap.requireAll_ok_iff, hbeside.dataIds, hbeside.dataIds']
      exact forall_congr' fun id => imp_congr_left hids.mem_iff.symm
    cases hstart : s.start data with
    | ok _ =>
      obtain ⟨_, hreq, hs⟩ := bind_ok hstart
      obtain rfl := Except.ok.inj hs
      have hstart' : s'.start data = .ok s' := by
        rw [Aitken.start, hboth.2 hreq]
        rfl
      have hstep := step_start (γ := ⟨.aitken s, data⟩) (map_eq_ok.2 ⟨s, hstart, rfl⟩)
      exact stepsWith_of_answers AitkenBeside.sight hstep
        (step_start (map_eq_ok.2 ⟨s', hstart', rfl⟩)) rfl
        (.mk data hbeside (htelling _ _ hstep).2)
    | error fault =>
      cases hstart' : s'.start data with
      | ok _ =>
        obtain ⟨_, hreq, -⟩ := bind_ok hstart'
        rw [Aitken.start, hboth.1 hreq] at hstart
        cases hstart
      | error fault' =>
        have hstep := step_start_error (γ := ⟨.aitken s, data⟩)
          (congrArg (Except.map Scheme.aitken) hstart)
        exact stepsWith_of_answers AitkenBeside.sight hstep
          (step_start_error (congrArg (Except.map Scheme.aitken) hstart')) rfl
          (.mk data hbeside (htelling _ _ hstep).2)
  | perform =>
    obtain ⟨r, r', hr, hr', hans, hdata, hnext⟩ := hbeside.perform hids fun r hr hans =>
      (htelling _ _ (step_perform (map_eq_ok.2 ⟨r, hr, rfl⟩))).1 rfl hans
    have hstep := step_perform (γ := ⟨.aitken s, data⟩) (map_eq_ok.2 ⟨r, hr, rfl⟩)
    have hlater := (htelling _ _ hstep).2
    refine stepsWith_of_answers AitkenBeside.sight hstep
      (step_perform (map_eq_ok.2 ⟨r', hr', rfl⟩)) hans ?_
    show AitkenBeside ids ids' es ⟨.aitken r.scheme, r.data⟩ ⟨.aitken r'.scheme, r'.data⟩
    rw [hdata]
    exact .mk r.data hnext hlater
  | converged =>
    exact stepsWith_of_answers AitkenBeside.sight rfl rfl rfl
      (.mk data (hbeside.converged none) (htelling _ _ rfl).2)
  | reset =>
    exact stepsWith_of_answers AitkenBeside.sight rfl rfl rfl
      (.mk data (hbeside.reset none) (htelling _ _ rfl).2)
  | edit change =>
    exact stepsWith_of_answers AitkenBeside.sight rfl rfl rfl
      (.mk (change data) hbeside (htelling _ _ rfl).2)

/-- Schemes do the same whatever the order in which the settings name the blocks. For Aitken schemes
this takes data whose total length tells that a block changed its own. -/
theorem watch_reordered {c c' : Config ℝ} (h : c.validate = .ok ()) (hkind : c.kind ≠ .constant)
    (hc : c.Reordered c') : ∃ built built', Scheme.build c = .ok built ∧
      Scheme.build c' = .ok built' ∧ ∀ data events,
        (c.kind = .aitken → Telling c.dataIds none ⟨built, data⟩ events) → ∃ sights,
          watch ⟨built, data⟩ events = .ok sights ∧ watch ⟨built', data⟩ events = .ok sights := by
  have h' := hc.validate h
  cases hk : c.kind with
  | constant => exact absurd hk hkind
  | aitken =>
    refine ⟨_, _, Scheme.build_aitken h hk, Scheme.build_aitken h' (hc.kind.trans hk), ?_⟩
    intro data events htelling
    have hnew : Aitken.Beside c.dataIds c'.dataIds none
        ⟨c.initialRelaxation, c.dataIds, c.initialRelaxation, 0, none⟩
        ⟨c'.initialRelaxation, c'.dataIds, c'.initialRelaxation, 0, none⟩ := by
      have hω : c'.initialRelaxation = c.initialRelaxation := by rw [hc.others]
      exact ⟨rfl, rfl, hω, hω, rfl, rfl, fun hpos => absurd hpos (Nat.lt_irrefl 0)⟩
    exact watch_eq (R := AitkenBeside c.dataIds c'.dataIds) (fun hb => hb.step hc.dataIds) events
      (.mk data hnew (htelling rfl))
  | iqnIls =>
    refine ⟨_, _, Scheme.build_iqnIls h hk, Scheme.build_iqnIls h' (hc.kind.trans hk), ?_⟩
    intro data events _
    have hnodup := Config.nodup_of_validate h
    exact watch_new (Weighting.reordering_kept hc hnodup ((Config.validate_ok_iff.1 h).2.2.2.2 hk))
      (hc.akin hnodup) data events

/-- Settings of an Aitken scheme for two blocks. -/
noncomputable def pairwise (ids : List DataId) : Config ℝ :=
  { kind := .aitken, initialRelaxation := 1, singularityLimit := 1, dataIds := ids }

/-- Two calls on blocks whose lengths stay. -/
noncomputable def steadyLengths : List (Event ℝ) :=
  [.start, .perform, .edit fun _ => .ofList [(0, ⟨[0], [1], 1⟩), (1, ⟨[1, 1], [0, 0], 1⟩)],
    .perform]

theorem telling_steadyLengths (s : Scheme ℝ) :
    Telling [0, 1] none ⟨s, Aitken.beforeTrade⟩ steadyLengths := by
  intro _ γ₁ h₁
  have hdata : γ₁.data = Aitken.beforeTrade := step_start_data h₁
  refine ⟨nofun, ?_⟩
  intro answer γ₂ _
  refine ⟨fun _ _ before hnone => absurd hnone (Option.not_mem_none before), ?_⟩
  intro _ γ₃ h₃
  obtain ⟨-, rfl⟩ := Prod.mk.inj (Except.ok.inj h₃)
  refine ⟨nofun, ?_⟩
  intro _ _ _
  refine ⟨fun _ _ before hbefore _ => ?_, trivial⟩
  -- the call before saw the first data, if it was answered
  have hlast : before ∈ if answer.isOk then some γ₁.data else none := hbefore
  rw [hdata] at hlast
  split at hlast
  next =>
    obtain rfl := Option.some.inj hlast
    exact List.forall_mem_cons.2 ⟨rfl, List.forall_mem_cons.2 ⟨rfl, nofun⟩⟩
  next => cases hlast

theorem watch_reordered_pair : (pairwise [0, 1]).validate = .ok () ∧
    (pairwise [0, 1]).Reordered (pairwise [1, 0]) ∧ ∃ built built',
      Scheme.build (pairwise [0, 1]) = .ok built ∧ Scheme.build (pairwise [1, 0]) = .ok built' ∧
      ∃ sights, watch ⟨built, Aitken.beforeTrade⟩ steadyLengths = .ok sights ∧
        watch ⟨built', Aitken.beforeTrade⟩ steadyLengths = .ok sights := by
  have hvalid : (pairwise [0, 1]).validate = .ok () := by
    refine Config.validate_ok_iff.2 ⟨?_, fun hno => SchemeKind.noConfusion hno.1,
      fun hno => List.cons_ne_nil 0 [1] hno.2, by decide, fun hno => SchemeKind.noConfusion hno⟩
    simp [isRelaxationFactor, pairwise]
  have hreordered : (pairwise [0, 1]).Reordered (pairwise [1, 0]) :=
    ⟨.swap 1 0 [], rfl, .refl _, rfl⟩
  obtain ⟨built, built', hb, hb', hwatch⟩ := watch_reordered hvalid
    (fun hno => SchemeKind.noConfusion hno) hreordered
  exact ⟨hvalid, hreordered, built, built', hb, hb',
    hwatch Aitken.beforeTrade steadyLengths fun _ => telling_steadyLengths built⟩

end Coupled

end Cosimulation.Acceleration

import Cosimulation.Proofs.Scheme.Footprint
import Cosimulation.Proofs.Scheme.Watching

/-!
# The record of an Aitken scheme

What an Aitken scheme does next follows from the calls it has answered. A `Record` lists these calls
window by window, each with the data it was given, the data it left and its factor; it is kept from
the calls and their answers. A new record begins when the scheme is reset, and when the configured
blocks come with another length in all than in the last answered call (`Record.meet`).

The state of the scheme is a summary of its record (`Observed.Kept`): how long the current window
is, and the factor and the residual of the last call. All calls keep it that way (`Kept.call`,
`Kept.run`), and so the factor of a call can be told from the record alone (`Answered`): the first
call of a window caps the last factor, and every other call corrects the one before by the secant
through its residual and the last one.
-/

namespace Cosimulation

/-- Blocks that are relaxed and stored together, stacked. -/
theorem DataMap.stacked_relax_store {α : Type} [Scalar α] {ids js : List DataId}
    {m relaxed stored : DataMap α} {ω : α} (hnodup : js.Nodup) (hsub : ids ⊆ js)
    (hpaired : ∀ id ∈ ids, m.Paired id) (hrelax : m.relax js ω = .ok relaxed)
    (hstore : relaxed.store js = .ok stored) :
    stored.stacked ids = Vec.axpy ω ((m.stacked ids).sub (m.stackedOld ids)) (m.stackedOld ids) ∧
      stored.stackedOld ids = stored.stacked ids := by
  have hstored id (hid : id ∈ ids) := relax_store_ok hnodup hrelax hstore (hsub hid)
  have hlength id (hid : id ∈ ids) := (hpaired id hid).length_eq
  refine ⟨?_, List.flatMap_congr fun id hid => (hstored id hid).2⟩
  rw [stacked, stacked, stackedOld, Vec.axpy, Vec.sub, zipWith_flatMap _ hlength, zipWith_flatMap]
  · exact List.flatMap_congr fun id hid => (hstored id hid).1
  · exact fun id hid => Vec.length_sub (hlength id hid)

namespace Acceleration

variable {α : Type}

/-- Settings that give an Aitken scheme, and the scheme that they give. -/
theorem Scheme.build_eq_aitken [Scalar α] {config : Config α} {fresh : Aitken α}
    (h : Scheme.build config = .ok (.aitken fresh)) :
    config.validate = .ok () ∧
      fresh = ⟨config.initialRelaxation, config.dataIds, config.initialRelaxation, 0, none⟩ := by
  have hvalid : config.validate = .ok () := by
    cases hv : config.validate with
    | ok u => rfl
    | error fault =>
      rw [Scheme.build, hv] at h
      cases h
  have hkind : config.kind = .aitken := by
    rw [Scheme.build, hvalid] at h
    exact Scheme.kind_of_assemble (mapError_eq_ok.1 h)
  rw [Scheme.build_aitken hvalid hkind] at h
  exact ⟨hvalid, (Scheme.aitken.inj (Except.ok.inj h)).symm⟩

namespace Aitken

/-! ## The record -/

/-- A call that was answered: the data it was given, those it left, and its factor. -/
structure Step (α : Type) where
  given : DataMap α
  left : DataMap α
  factor : α

/-- The configured blocks were relaxed by the factor and stored. -/
structure Step.Relaxed [Scalar α] (ids : List DataId) (e : Step α) : Prop where
  paired : ∀ id ∈ ids, e.given.Paired id
  stacked : e.left.stacked ids =
    Vec.axpy e.factor (residualOf ids e.given) (e.given.stackedOld ids)
  stored : e.left.stackedOld ids = e.left.stacked ids

/-- The answered calls since the scheme last started afresh, in the windows that are over and in
the current one. -/
structure Record (α : Type) where
  finished : List (List (Step α)) := []
  window : List (Step α) := []

namespace Record

/-- The last answered call. -/
def last? (ρ : Record α) : Option (Step α) := (ρ.finished.flatten ++ ρ.window).getLast?

/-- The factor of the last answered call. -/
def factor (initial : α) (ρ : Record α) : α := (ρ.last?.map Step.factor).getD initial

/-- A window is over. -/
def turn (ρ : Record α) : Record α := ⟨ρ.finished ++ [ρ.window], []⟩

/-- A call was answered. -/
def add (ρ : Record α) (e : Step α) : Record α := { ρ with window := ρ.window ++ [e] }

/-- The configured blocks have another length in all than in the last answered call. -/
def Resized (ids : List DataId) (ρ : Record α) (d : DataMap α) : Prop :=
  ∃ e ∈ ρ.last?, (e.given.stacked ids).length ≠ (d.stacked ids).length

/-- The data of a call come in. -/
def meet (ids : List DataId) (ρ : Record α) (d : DataMap α) : Record α :=
  match ρ.last? with
  | some e => if (e.given.stacked ids).length = (d.stacked ids).length then ρ else {}
  | none => ρ

variable {ρ : Record α} {ids : List DataId} {d : DataMap α}

@[simp]
theorem last?_turn : ρ.turn.last? = ρ.last? := by
  simp [last?, turn]

@[simp]
theorem last?_add (e : Step α) : (ρ.add e).last? = some e := by
  simp [last?, add, List.getLast?_append]

theorem last?_of_window {e : Step α} (h : ρ.window.getLast? = some e) : ρ.last? = some e := by
  rw [last?, List.getLast?_append, h, Option.some_or]

theorem window_of_last? (h : ρ.last? = none) : ρ.window = [] :=
  (List.append_eq_nil_iff.1 (List.getLast?_eq_none_iff.1 h)).2

theorem meet_of_resized (h : ρ.Resized ids d) : ρ.meet ids d = {} := by
  obtain ⟨e, he, hne⟩ := h
  rw [meet, he]
  exact if_neg hne

theorem meet_of_not_resized (h : ¬ ρ.Resized ids d) : ρ.meet ids d = ρ := by
  unfold meet
  split
  next e he => exact if_pos (Decidable.not_not.1 fun hne => h ⟨e, he, hne⟩)
  next => rfl

end Record

/-! ## Schemes with their record -/

/-- A scheme and what it has answered. -/
structure Observed (α : Type) where
  scheme : Aitken α
  record : Record α := {}

variable [Scalar α]

namespace Observed

/-- A call, and what is taken down of it. -/
def call (o : Observed α) : Call α → Except (Violation α) (Observed α)
  | .start d =>
    match o.scheme.start d with
    | .ok scheme => .ok { o with scheme }
    | .error _ => .ok o
  | .perform d => do
    let reply ← o.scheme.perform d
    match reply.answer with
    | .ok () =>
      let step := ⟨d, reply.data, reply.scheme.factor⟩
      .ok ⟨reply.scheme, (o.record.meet o.scheme.dataIds d).add step⟩
    | .error _ => .ok { o with scheme := reply.scheme }
  | .converged _ => .ok ⟨o.scheme.converged, o.record.turn⟩
  | .reset => .ok ⟨o.scheme.reset, {}⟩

/-- Several calls. -/
def run (o : Observed α) : List (Call α) → Except (Violation α) (Observed α)
  | [] => .ok o
  | c :: cs => do
    let o' ← o.call c
    o'.run cs

/-- What every call keeps, every run keeps. -/
theorem run_invariant {P : Observed α → Prop}
    (hcall : ∀ {o o' : Observed α} {c : Call α}, P o → o.call c = .ok o' → P o') :
    ∀ {calls : List (Call α)} {o o' : Observed α}, P o → o.run calls = .ok o' → P o' := by
  intro calls
  induction calls with
  | nil =>
    intro o o' h hr
    exact Except.ok.inj hr ▸ h
  | cons c cs ih =>
    intro o o' h hr
    obtain ⟨o₁, hc, hr⟩ := bind_ok hr
    exact ih (hcall h hc) hr

/-- What a call can do to a scheme and its record. -/
theorem call_cases {o o' : Observed α} {c : Call α} (h : o.call c = .ok o') :
    o' = o ∨
    (∃ d reply, o.scheme.perform d = .ok reply ∧ reply.answer = .ok () ∧ o' = ⟨reply.scheme,
      (o.record.meet o.scheme.dataIds d).add ⟨d, reply.data, reply.scheme.factor⟩⟩) ∨
    o' = ⟨o.scheme.converged, o.record.turn⟩ ∨ o' = ⟨o.scheme.reset, {}⟩ := by
  cases c with
  | start d =>
    refine .inl ?_
    unfold Observed.call at h
    dsimp only at h
    split at h
    next s hs =>
      obtain ⟨⟨⟩, -, hsame⟩ := bind_ok hs
      obtain rfl := Except.ok.inj hsame
      exact (Except.ok.inj h).symm
    next => exact (Except.ok.inj h).symm
  | perform d =>
    obtain ⟨reply, hp, h⟩ := bind_ok h
    cases hanswer : reply.answer with
    | ok u =>
      rw [hanswer] at h
      exact .inr (.inl ⟨d, reply, hp, hanswer, (Except.ok.inj h).symm⟩)
    | error fault =>
      rw [hanswer] at h
      rcases perform_footprint hp with ⟨_, rfl⟩ | ⟨hok, -⟩
      · exact .inl (Except.ok.inj h).symm
      · cases hok.symm.trans hanswer
  | converged d => exact .inr (.inr (.inl (Except.ok.inj h).symm))
  | reset => exact .inr (.inr (.inr (Except.ok.inj h).symm))

/-- The state of a scheme is a summary of its record. -/
structure Kept (fresh : Aitken α) (o : Observed α) : Prop where
  settings : o.scheme.reset = fresh
  iteration : o.scheme.iteration = o.record.window.length
  factor : o.scheme.factor = o.record.factor fresh.initial
  residual : o.scheme.residual = o.record.last?.map fun e => residualOf fresh.dataIds e.given
  relaxed : ∀ e ∈ o.record.last?, e.Relaxed fresh.dataIds

end Observed

/-- What an answered call does, told by the record of the calls before it. -/
structure Answered (fresh : Aitken α) (ρ : Record α) (d : DataMap α) (reply : Reply (Aitken α) α) :
    Prop where
  paired : ∀ id ∈ d.keys ++ fresh.dataIds, d.Paired id
  /-- The first call of a window caps the factor of the last one. -/
  first : (ρ.meet fresh.dataIds d).window = [] → reply.scheme.factor =
    cappedFactor fresh.initial ((ρ.meet fresh.dataIds d).factor fresh.initial)
  /-- Every other call corrects the factor of the one before. -/
  later : ∀ e ∈ (ρ.meet fresh.dataIds d).window.getLast?,
    secantFactor e.factor (residualOf fresh.dataIds e.given) (residualOf fresh.dataIds d) =
      .ok reply.scheme.factor
  relaxed : (Step.mk d reply.data reply.scheme.factor).Relaxed fresh.dataIds

namespace Observed.Kept

variable {fresh : Aitken α} {o o' : Observed α} {d : DataMap α} {reply : Reply (Aitken α) α}

theorem initial (h : Kept fresh o) : o.scheme.initial = fresh.initial := h.settings ▸ rfl

theorem dataIds (h : Kept fresh o) : o.scheme.dataIds = fresh.dataIds := h.settings ▸ rfl

/-- A scheme that has not answered anything is fresh. -/
theorem eq_fresh (h : Kept fresh o) (hlast : o.record.last? = none) : o.scheme = fresh := by
  have hiteration := h.iteration
  have hfactor := h.factor
  have hresidual := h.residual
  rw [Record.window_of_last? hlast] at hiteration
  rw [Record.factor, hlast, Option.map_none, Option.getD_none, ← h.initial] at hfactor
  rw [hlast, Option.map_none] at hresidual
  have hreset : o.scheme = o.scheme.reset :=
    congr (congr (congrArg (Aitken.mk _ _) hfactor) hiteration) hresidual
  exact hreset.trans h.settings

theorem reset (h : Kept fresh o) : Kept fresh ⟨o.scheme.reset, {}⟩ :=
  ⟨h.settings, rfl, h.initial, rfl, fun _ he => nomatch he⟩

theorem converged (h : Kept fresh o) : Kept fresh ⟨o.scheme.converged, o.record.turn⟩ := by
  refine ⟨h.settings, rfl, ?_, ?_, ?_⟩
  · rw [Record.factor, Record.last?_turn]
    exact h.factor
  · rw [Record.last?_turn]
    exact h.residual
  · rw [Record.last?_turn]
    exact h.relaxed

/-- The scheme starts afresh where the record does. -/
theorem adapt (h : Kept fresh o) (hd : ∀ id ∈ fresh.dataIds, d.Paired id) :
    Kept fresh ⟨o.scheme.adapt (residualOf fresh.dataIds d), o.record.meet fresh.dataIds d⟩ := by
  unfold Aitken.adapt Record.meet
  rw [h.residual]
  cases hlast : o.record.last? with
  | none => exact h
  | some e =>
    dsimp only [Option.map_some]
    rw [length_residualOf (h.relaxed e hlast).paired, length_residualOf hd]
    split
    · exact h
    · exact h.reset

theorem nextFactor_of_first (h : Kept fresh o) (hfirst : o.record.window = []) (r : Vec α) :
    o.scheme.nextFactor r =
      .ok (cappedFactor fresh.initial (o.record.factor fresh.initial)) := by
  have hcount := h.iteration
  rw [hfirst] at hcount
  rw [nextFactor_first (hcount ▸ Nat.lt_irrefl 0), h.initial, h.factor]

theorem nextFactor_of_later (h : Kept fresh o) {e : Step α}
    (hlater : o.record.window.getLast? = some e) (r : Vec α) :
    o.scheme.nextFactor r = secantFactor e.factor (residualOf fresh.dataIds e.given) r := by
  have hpos : 0 < o.scheme.iteration := by
    rw [h.iteration, List.length_pos_iff]
    exact fun hnil => nomatch (congrArg List.getLast? hnil).symm.trans hlater
  rw [nextFactor, h.residual, h.factor, Record.factor, Record.last?_of_window hlater]
  exact if_pos hpos

/-- An answered call is told by the record, and is taken down in it. -/
theorem perform (h : Kept fresh o) (hp : o.scheme.perform d = .ok reply)
    (hanswer : reply.answer = .ok ()) : Answered fresh o.record d reply ∧
      Kept fresh ⟨reply.scheme,
        (o.record.meet fresh.dataIds d).add ⟨d, reply.data, reply.scheme.factor⟩⟩ := by
  by_cases hpaired : ∀ id ∈ d.keys ++ o.scheme.dataIds, d.Paired id
  · obtain ⟨factor, relaxed, stored, hfactor, hrelax, hstore, hreply⟩ := perform_of_paired hpaired
    obtain rfl := Except.ok.inj (hp.symm.trans hreply)
    rw [h.dataIds] at hpaired hfactor ⊢
    have hconfigured := (List.forall_mem_append.1 hpaired).2
    have hkeys : fresh.dataIds ⊆ d.keys := fun id hid => by
      obtain ⟨b, hb, -⟩ := hconfigured id hid
      exact OrderedMap.contains_iff_mem_keys.1 (Option.isSome_iff_exists.2 ⟨b, hb⟩)
    obtain ⟨hstacked, hstored⟩ := DataMap.stacked_relax_store d.nodup_keys hkeys hconfigured hrelax
      hstore
    have hstep : (Step.mk d stored factor).Relaxed fresh.dataIds :=
      ⟨hconfigured, hstacked, hstored⟩
    have hmet := h.adapt hconfigured
    refine ⟨⟨hpaired, fun hfirst => ?_, fun e he => ?_, hstep⟩, hmet.settings, ?_, ?_, ?_, ?_⟩
    · exact Except.ok.inj (hfactor.symm.trans (hmet.nextFactor_of_first hfirst _))
    · exact (hmet.nextFactor_of_later he _).symm.trans hfactor
    · rw [Record.add, List.length_append]
      exact congrArg (· + 1) hmet.iteration
    · rw [Record.factor, Record.last?_add]
      rfl
    · rw [Record.last?_add]
      rfl
    · rw [Record.last?_add]
      exact fun e he => Option.some.inj he ▸ hstep
  · obtain ⟨fault, hreply⟩ := perform_of_not_paired hpaired
    obtain rfl := Except.ok.inj (hp.symm.trans hreply)
    cases hanswer

theorem call (h : Kept fresh o) {c : Call α} (hc : o.call c = .ok o') : Kept fresh o' := by
  rcases call_cases hc with rfl | ⟨d, reply, hp, hanswer, rfl⟩ | rfl | rfl
  · exact h
  · rw [h.dataIds]
    exact (h.perform hp hanswer).2
  · exact h.converged
  · exact h.reset

theorem built {config : Config α} (hbuild : Scheme.build config = .ok (.aitken fresh)) :
    Kept fresh ⟨fresh, {}⟩ := by
  obtain ⟨-, rfl⟩ := Scheme.build_eq_aitken hbuild
  exact ⟨rfl, rfl, rfl, rfl, fun _ he => nomatch he⟩

/-- After every run the state of a scheme is a summary of its record. -/
theorem run {config : Config α} {calls : List (Call α)}
    (hbuild : Scheme.build config = .ok (.aitken fresh))
    (hrun : Observed.run ⟨fresh, {}⟩ calls = .ok o) : Kept fresh o :=
  run_invariant (fun h hc => h.call hc) (.built hbuild) hrun

end Observed.Kept

end Aitken

end Acceleration

end Cosimulation

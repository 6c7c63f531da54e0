import Cosimulation.Proofs.Data.Rows
import Cosimulation.Proofs.QuasiNewton.Forgetful
import Cosimulation.Proofs.Scheme.Footprint
import Cosimulation.Proofs.Scheme.Watching

/-!
# A quasi-Newton scheme that only relaxes

A quasi-Newton scheme of forgetful settings never has a column to combine, so whatever its other
settings are it relaxes by the initial factor: `watch_forgetful` runs it beside constant relaxation
and sees the same data after each event.

The two do not ask the same of the data. Constant relaxation changes all blocks that are there, the
quasi-Newton scheme those there were at the start; and it refuses calls before the start. So the
events have to be such that it answers all calls, and each call has to find the blocks of the start
(`Familiar`). Then both change the same blocks, in two orders, and each block once
(`Relaxing.perform`).
-/

namespace Cosimulation.Acceleration

/-- The settings of constant relaxation by the initial factor. -/
def Config.relaxing (c : Config ℝ) : Config ℝ := { c with kind := .constant }

theorem Config.validate_relaxing {c : Config ℝ} (h : c.validate = .ok ()) :
    c.relaxing.validate = .ok () := by
  obtain ⟨hfactor, -, -, hnodup, -⟩ := Config.validate_ok_iff.1 h
  exact Config.validate_ok_iff.2 ⟨hfactor, fun hno => SchemeKind.noConfusion hno.1,
    fun hno => hno.1 rfl, hnodup, fun hno => SchemeKind.noConfusion hno⟩

namespace QuasiNewton

variable {α : Type}

/-- The tracked blocks are those there were at the start. -/
theorem Begun.trackedIds_perm {config : Config α} {first : DataMap α} {s : QuasiNewton α}
    (h : s.Begun config first) (hnodup : config.dataIds.Nodup) :
    s.trackedIds.Perm first.keys := by
  rw [trackedIds, h.settings, h.secondaryIds, others]
  have hapart : ∀ id ∈ config.dataIds,
      id ∉ first.keys.filter fun id => !config.dataIds.contains id := by
    intro id hid hmem
    have hnot := (List.mem_filter.1 hmem).2
    simp [hid] at hnot
  refine (List.perm_ext_iff_of_nodup ?_ first.nodup_keys).2 fun id => ?_
  · refine List.nodup_append.2 ⟨hnodup, first.nodup_keys.filter _, ?_⟩
    rintro id hid _ hmem rfl
    exact hapart id hid hmem
  · rw [List.mem_append, List.mem_filter]
    refine ⟨fun hid => ?_, fun hid => ?_⟩
    · rcases hid with hid | hid
      · exact OrderedMap.contains_iff_mem_keys.1 (h.present id hid)
      · exact hid.1
    · by_cases hprimary : id ∈ config.dataIds
      · exact .inl hprimary
      · exact .inr ⟨hid, by simpa using hprimary⟩

end QuasiNewton

namespace Coupled

/-! ## Events that are answered -/

section
variable {α : Type} [Scalar α]

/-- What an event does that is answered. -/
inductive Answered (γ : Coupled α) : Event α → Coupled α → Prop
  | start {s : Scheme α} (h : γ.scheme.start γ.data = .ok s) : Answered γ .start ⟨s, γ.data⟩
  | perform {r : Reply (Scheme α) α} (h : γ.scheme.perform γ.data = .ok r)
      (hanswer : r.answer = .ok ()) : Answered γ .perform ⟨r.scheme, r.data⟩
  | converged {r : Reply (Scheme α) α} (h : γ.scheme.converged γ.data = .ok r)
      (hanswer : r.answer = .ok ()) : Answered γ .converged ⟨r.scheme, r.data⟩
  | reset : Answered γ .reset ⟨γ.scheme.reset, γ.data⟩
  | edit (change : DataMap α → DataMap α) : Answered γ (.edit change) ⟨γ.scheme, change γ.data⟩

theorem answered_iff {γ γ' : Coupled α} {e : Event α} :
    Answered γ e γ' ↔ γ.step e = .ok (.ok (), γ') := by
  constructor
  · intro h
    cases h with
    | start h => exact step_start h
    | perform h hanswer => rw [step_perform h, hanswer]
    | converged h hanswer => rw [step_converged h, hanswer]
    | reset => rfl
    | edit change => rfl
  · intro h
    cases e with
    | start =>
      cases hs : γ.scheme.start γ.data with
      | ok s =>
        obtain ⟨-, rfl⟩ := Prod.mk.inj (Except.ok.inj ((step_start hs).symm.trans h))
        exact .start hs
      | error fault => cases (step_start_error hs).symm.trans h
    | perform =>
      obtain ⟨r, hr, h⟩ := bind_ok h
      obtain ⟨hanswer, rfl⟩ := Prod.mk.inj (Except.ok.inj h)
      exact .perform hr hanswer
    | converged =>
      obtain ⟨r, hr, h⟩ := bind_ok h
      obtain ⟨hanswer, rfl⟩ := Prod.mk.inj (Except.ok.inj h)
      exact .converged hr hanswer
    | reset =>
      obtain ⟨-, rfl⟩ := Prod.mk.inj (Except.ok.inj h)
      exact .reset
    | edit change =>
      obtain ⟨-, rfl⟩ := Prod.mk.inj (Except.ok.inj h)
      exact .edit change

/-- The data of the last start, after a further event. -/
def lastStart (origin : Option (DataMap α)) (γ : Coupled α) : Event α → Option (DataMap α)
  | .start => some γ.data
  | _ => origin

/-- All calls are answered, and those for a new iterate find the blocks of the last start. -/
def Familiar : Option (DataMap α) → Coupled α → List (Event α) → Prop
  | _, _, [] => True
  | origin, γ, e :: es =>
    (e = .perform → ∀ first ∈ origin, γ.data.keys = first.keys) ∧
      ∃ γ', γ.step e = .ok (.ok (), γ') ∧ Familiar (lastStart origin γ e) γ' es

end

/-! ## The schemes side by side -/

/-- A quasi-Newton scheme without columns and constant relaxation, on the same data. `origin` has
the data of the last start. -/
inductive Relaxing (c : Config ℝ) (origin : Option (DataMap ℝ)) : Coupled ℝ → Coupled ℝ → Prop
  | mk {σ : Session ℝ} (data : DataMap ℝ) (exact : σ.Exact) (blank : σ.scheme.Blank)
      (settled : Course.Settled (.iqnIls (.new c)) ⟨.iqnIls σ.scheme, origin⟩) :
      Relaxing c origin ⟨.iqnIls σ.scheme, data⟩
        ⟨.constant ⟨c.initialRelaxation, c.dataIds⟩, data⟩

namespace Relaxing

variable {c : Config ℝ} {origin : Option (DataMap ℝ)} {γ γ' γ₁ : Coupled ℝ}

theorem data_eq (h : Relaxing c origin γ γ') : γ'.data = γ.data := by
  obtain ⟨data, -⟩ := h
  rfl

/-- An answered call relaxes the blocks of the start; constant relaxation, all there are. -/
theorem perform {σ : Session ℝ} (hf : c.Forgetful) (hnodup : c.dataIds.Nodup) (he : σ.Exact)
    (hblank : σ.scheme.Blank)
    (hsettled : Course.Settled (.iqnIls (.new c)) ⟨.iqnIls σ.scheme, origin⟩) {d : DataMap ℝ}
    (hkeys : ∀ first ∈ origin, d.keys = first.keys) {reply : Reply (QuasiNewton ℝ) ℝ}
    (hp : σ.scheme.perform d = .ok reply) (hanswer : reply.answer = .ok ()) :
    reply.scheme.Blank ∧ Constant.perform ⟨c.initialRelaxation, c.dataIds⟩ d =
      .ok ⟨.ok (), ⟨c.initialRelaxation, c.dataIds⟩, reply.data⟩ := by
  obtain rfl : σ.scheme.config = c := hsettled.config_eq
  obtain ⟨hblank', hpaired, relaxed, hr, hs⟩ := he.perform_relaxes hf hblank hp hanswer
  have hst : σ.scheme.started = true := by
    rcases QuasiNewton.perform_footprint hp with ⟨fault, hfault, -⟩ | ⟨-, hst, -⟩
    · cases hanswer.symm.trans hfault
    · exact hst
  obtain ⟨first, rfl, hbegun⟩ := hsettled.begun_of_started hst
  have hperm : σ.scheme.trackedIds.Perm d.keys :=
    hkeys first rfl ▸ hbegun.trackedIds_perm hnodup
  have htracked : σ.scheme.trackedIds.Nodup := hperm.nodup_iff.2 d.nodup_keys
  have hpresent : ∀ id ∈ σ.scheme.config.dataIds, d.contains id := fun id hid =>
    OrderedMap.contains_iff_mem_keys.2 (hperm.mem_iff.1 (List.mem_append_left _ hid))
  obtain ⟨relaxed', stored, hr', hs', hc⟩ := Constant.perform_of_paired
    (s := ⟨σ.scheme.config.initialRelaxation, σ.scheme.config.dataIds⟩) hpresent
    fun id hid => hpaired id (hperm.mem_iff.2 hid)
  obtain rfl := DataMap.modifyAll_perm hperm htracked hr hr'
  obtain rfl := DataMap.modifyAll_perm hperm htracked hs hs'
  exact ⟨hblank', hc⟩

/-- What the quasi-Newton scheme answers, constant relaxation answers as well. -/
theorem step (hf : c.Forgetful) (hnodup : c.dataIds.Nodup) {e : Event ℝ}
    (h : Relaxing c origin γ γ') (hkeys : e = .perform → ∀ first ∈ origin, γ.data.keys = first.keys)
    (hs : Answered γ e γ₁) :
    ∃ γ₁', Answered γ' e γ₁' ∧ Relaxing c (lastStart origin γ e) γ₁ γ₁' := by
  obtain @⟨σ, data, hexact, hblank, hsettled⟩ := h
  cases hs with
  | start hs =>
    obtain ⟨s, hstart, rfl⟩ := map_eq_ok.1 hs
    have hexact' := Session.start_exact hexact hstart
    obtain ⟨hpresent, hs'⟩ := QuasiNewton.start_eq hstart
    rw [hsettled.config_eq] at hpresent
    have hreq := DataMap.requireAll_ok_iff.2 hpresent
    refine ⟨_, .start (s := .constant ⟨c.initialRelaxation, c.dataIds⟩) ?_,
      .mk data hexact' (hs' ▸ rfl) (hsettled.start hs)⟩
    rw [Scheme.start, Constant.start, hreq]
    rfl
  | perform hp hanswer =>
    have hsettled' := hsettled.perform hp
    obtain ⟨reply, hq, rfl⟩ := map_eq_ok.1 hp
    obtain ⟨reply', hq', hexact'⟩ := hexact.perform_total data
    obtain rfl := Except.ok.inj (hq'.symm.trans hq)
    obtain ⟨hblank', hc⟩ := perform hf hnodup hexact hblank hsettled (hkeys rfl) hq hanswer
    exact ⟨_, .perform (map_eq_ok.2 ⟨_, hc, rfl⟩) rfl, .mk reply'.data hexact' hblank' hsettled'⟩
  | converged hc hanswer =>
    have hsettled' := hsettled.converged hc
    obtain ⟨reply, hq, rfl⟩ := map_eq_ok.1 hc
    obtain ⟨reply', hq', hexact'⟩ := hexact.converged_total data
    obtain rfl := Except.ok.inj (hq'.symm.trans hq)
    obtain ⟨hblank', hdata⟩ := QuasiNewton.converged_blank hblank hq
    obtain ⟨_, _, _⟩ := reply'
    obtain rfl := hdata
    exact ⟨_, .converged rfl rfl, .mk _ hexact' hblank' hsettled'⟩
  | reset => exact ⟨_, .reset, .mk data (Session.reset_exact hexact) rfl hsettled.reset⟩
  | edit change => exact ⟨_, .edit change, .mk (change data) hexact hblank hsettled⟩

/-- Along events that the quasi-Newton scheme answers, the data stay the same. -/
theorem watch (hf : c.Forgetful) (hnodup : c.dataIds.Nodup) : ∀ {events : List (Event ℝ)}
    {origin : Option (DataMap ℝ)} {γ γ' : Coupled ℝ}, Relaxing c origin γ γ' →
    Familiar origin γ events → ∃ sights sights', γ.watch events = .ok sights ∧
      γ'.watch events = .ok sights' ∧ (∀ s ∈ sights', s.answered = true) ∧
      sights'.map Sight.data = sights.map Sight.data := by
  intro events
  induction events with
  | nil => exact fun _ _ => ⟨[], [], rfl, rfl, nofun, rfl⟩
  | cons e es ih =>
    intro origin γ γ' h hfamiliar
    obtain ⟨hkeys, γ₁, hs, hrest⟩ := hfamiliar
    obtain ⟨γ₁', hs', h₁⟩ := h.step hf hnodup hkeys (answered_iff.2 hs)
    obtain ⟨sights, sights', hw, hw', hanswered, hdata⟩ := ih h₁ hrest
    exact ⟨_, _, watch_cons hs hw, watch_cons (answered_iff.1 hs') hw',
      List.forall_mem_cons.2 ⟨rfl, hanswered⟩, congrArg₂ List.cons h₁.data_eq hdata⟩

end Relaxing

/-- A quasi-Newton scheme of forgetful settings relaxes: along events that it answers and whose
calls find the blocks of the last start, the data after each event are those of constant relaxation
by the initial factor. -/
theorem watch_forgetful {c : Config ℝ} (h : c.validate = .ok ()) (hkind : c.kind = .iqnIls)
    (hf : c.Forgetful) :
    ∃ built plain, Scheme.build c = .ok built ∧ Scheme.build c.relaxing = .ok plain ∧
      ∀ data events, Familiar none ⟨built, data⟩ events → ∃ sights sights',
        watch ⟨built, data⟩ events = .ok sights ∧ watch ⟨plain, data⟩ events = .ok sights' ∧
          (∀ s ∈ sights', s.answered = true) ∧
          sights'.map Sight.data = sights.map Sight.data := by
  refine ⟨_, _, Scheme.build_iqnIls h hkind,
    Scheme.build_constant (Config.validate_relaxing h) rfl, fun data events => ?_⟩
  exact Relaxing.watch hf (Config.nodup_of_validate h)
    (.mk data (Session.new_exact c) rfl (.iqnIls (.new c) rfl rfl (fun _ => rfl) nofun))

/-- In exact arithmetic a call on data that are accepted is answered. -/
theorem answered_perform {s s' : QuasiNewton ℝ} (h : (Scheme.iqnIls s).Steady) (data : DataMap ℝ)
    {accepted : Vec ℝ × Vec ℝ} (haccept : s.accept data = (.ok accepted, s')) :
    ∃ γ, Answered ⟨.iqnIls s, data⟩ .perform γ := by
  obtain ⟨reply, hr, -⟩ := h.perform data
  refine ⟨_, .perform hr ?_⟩
  obtain ⟨reply, hp, rfl⟩ := map_eq_ok.1 hr
  rw [QuasiNewton.perform, haccept] at hp
  obtain ⟨_, -, hp⟩ := bind_ok hp
  obtain rfl := Except.ok.inj hp
  rfl

open Session (single plain)

/-- Settings by which the filter lets no column pass. -/
noncomputable def impassable : Config ℝ := { plain with filter := .qr2, singularityLimit := 1 + 1 }

/-- Two calls of one window. -/
noncomputable def secondCall : List (Event ℝ) :=
  [.start, .perform, .edit fun _ => single (-1) 1, .perform]

/-- The second call adds a column, and the filter drops it. -/
theorem watch_forgetful_impassable : impassable.validate = .ok () ∧ impassable.Forgetful ∧
    ∃ built plain, Scheme.build impassable = .ok built ∧
      Scheme.build impassable.relaxing = .ok plain ∧ ∃ sights sights',
        watch ⟨built, single 1 0⟩ secondCall = .ok sights ∧
          watch ⟨plain, single 1 0⟩ secondCall = .ok sights' ∧
          sights'.map Sight.data = sights.map Sight.data := by
  have hvalid : impassable.validate = .ok () := by
    unfold Config.validate
    simp [impassable, plain, isRelaxationFactor, PreconditionerConfig.validate]
  have hforgetful : impassable.Forgetful := .inr
    ⟨fun hno => FilterKind.noConfusion hno, by norm_num [impassable]⟩
  obtain ⟨built, relaxing, hb, hr, hwatch⟩ := watch_forgetful hvalid rfl hforgetful
  have hkeys (value old : ℝ) :
      ∀ first ∈ some (single 1 0), (single value old).keys = first.keys := by
    intro first hfirst
    obtain rfl := Option.some.inj hfirst
    have hall (value old : ℝ) : (single value old).keys = [0] := rfl
    rw [hall, hall]
  have hfamiliar : Familiar none ⟨built, single 1 0⟩ secondCall := by
    obtain ⟨_, hb', hsteady⟩ := Scheme.Steady.build hvalid
    obtain rfl := Except.ok.inj (hb'.symm.trans hb)
    obtain rfl := Except.ok.inj ((Scheme.build_iqnIls hvalid rfl).symm.trans hb)
    obtain ⟨_, γ, hrun, -, hγ⟩ := run_steady (γ := ⟨.iqnIls (.new impassable), single 1 0⟩)
      [.start, .perform, .edit fun _ => single (-1) 1] hsteady
    obtain ⟨-, rfl⟩ := Prod.mk.inj (Except.ok.inj hrun)
    obtain ⟨γ', hlast⟩ := answered_perform hγ (single (-1) 1) rfl
    refine ⟨?_, _, rfl, fun _ => hkeys 1 0, _, rfl, ?_, _, rfl, fun _ => hkeys (-1) 1,
      γ', answered_iff.1 hlast, trivial⟩
    all_goals
      intro hno
      cases hno
  obtain ⟨sights, sights', hw, hw', -, hdata⟩ := hwatch _ _ hfamiliar
  exact ⟨hvalid, hforgetful, built, relaxing, hb, hr, sights, sights', hw, hw', hdata⟩

end Coupled

end Cosimulation.Acceleration

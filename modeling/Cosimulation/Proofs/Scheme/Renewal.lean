import Cosimulation.Acceleration.Scheme
import Cosimulation.Proofs.QuasiNewton.Renewal
import Cosimulation.Proofs.QuasiNewton.Runs

/-!
# A scheme that is renewed

To drop what a scheme has learnt is to start over: whatever was asked of a scheme before, after a
reset it answers like one of the same settings that was just started, on data with the same blocks
and the lengths it has recorded. A quasi-Newton scheme renews itself in the same sense when a block
comes with another length (`Course.run_renewed`).

Two schemes that cannot be told apart need not be equal, since a quasi-Newton scheme that was reset
still holds values of its secondary blocks. What can be seen of a scheme is everything else
(`Scheme.visible`), and a `Scheme.trace` takes down what can be seen while calls are made of it.
Equal traces come out of schemes that are `Alike`, which all calls keep (`Alike.call`). What makes a
scheme alike to a new one is what it keeps of its settings along a course of calls
(`Course.Settled`).
-/

namespace Cosimulation.Acceleration

variable {α : Type}

namespace Scheme

/-- What can be seen of a scheme: all of it except the values that a quasi-Newton scheme noted of
its secondary blocks. -/
def visible : Scheme α → Scheme α
  | .iqnIls s => .iqnIls (s.remember .empty)
  | s => s

/-- The length that a scheme has recorded of a block; only quasi-Newton schemes record lengths. -/
def recorded : Scheme α → DataId → Option Nat
  | .iqnIls s, id => s.sizes.lookup id
  | _, _ => none

variable [Scalar α]

/-- One call on a scheme. A start leaves the data alone, and a reset has none. -/
def call (s : Scheme α) : Call α → Except (Violation α) (Reply (Scheme α) α)
  | .start data =>
    match s.start data with
    | .ok s' => .ok ⟨.ok (), s', data⟩
    | .error fault => .ok ⟨.error fault, s, data⟩
  | .perform data => s.perform data
  | .converged data => s.converged data
  | .reset => .ok ⟨.ok (), s.reset, .empty⟩

/-- What can be seen after each of several calls, up to one that breaks off. -/
def trace (s : Scheme α) : List (Call α) → List (Except (Violation α) (Reply (Scheme α) α))
  | [] => []
  | c :: cs =>
    match s.call c with
    | .error violation => [.error violation]
    | .ok reply =>
      .ok ⟨reply.answer, reply.scheme.visible, reply.data⟩ :: reply.scheme.trace cs

/-! ## Schemes that cannot be told apart -/

/-- Equal schemes, or quasi-Newton schemes that differ in noted values they will not look at. -/
inductive Alike : Scheme α → Scheme α → Prop
  | refl (s : Scheme α) : Alike s s
  | iqnIls {s t : QuasiNewton α} (h : QuasiNewton.Alike s t) : Alike (.iqnIls s) (.iqnIls t)

omit [Scalar α] in
theorem Alike.visible {s t : Scheme α} (h : Alike s t) : s.visible = t.visible := by
  cases h with
  | refl => rfl
  | iqnIls h =>
    obtain ⟨m, rfl, -⟩ := h
    rfl

/-- Alike schemes answer a call alike and stay alike. -/
theorem Alike.call {s t : Scheme α} (h : Alike s t) (c : Call α) :
    Agree Alike (s.call c) (t.call c) := by
  cases h with
  | refl => exact Agree.refl Alike.refl _
  | @iqnIls s t h =>
    cases c with
    | start d =>
      have hstart : s.start d = t.start d := h.start d
      show Agree Alike (match (s.start d).map Scheme.iqnIls with | .ok s' => _ | .error fault => _)
        (match (t.start d).map Scheme.iqnIls with | .ok s' => _ | .error fault => _)
      rw [hstart]
      cases t.start d with
      | error fault => exact .reply _ _ (.iqnIls h)
      | ok t' => exact .reply _ _ (.refl _)
    | perform d => exact (h.perform d).map .iqnIls
    | converged d => exact (h.converged d).map .iqnIls
    | reset => exact .reply _ _ (.iqnIls h.reset)

/-- Calls that agree, and what is seen after them. -/
theorem trace_of_agree {s t : Scheme α} {c : Call α} {cs : List (Call α)}
    (h : Agree Alike (s.call c) (t.call c))
    (hcs : ∀ {s t : Scheme α}, Alike s t → s.trace cs = t.trace cs) :
    s.trace (c :: cs) = t.trace (c :: cs) := by
  rw [Scheme.trace, Scheme.trace]
  generalize s.call c = x at h
  generalize t.call c = y at h
  cases h with
  | violation v => rfl
  | reply answer d h =>
    show Except.ok (Reply.mk _ _ _) :: _ = Except.ok (Reply.mk _ _ _) :: _
    rw [h.visible, hcs h]

/-- What can be seen of alike schemes is the same ever after. -/
theorem Alike.trace {calls : List (Call α)} : ∀ {s t : Scheme α}, Alike s t →
    s.trace calls = t.trace calls := by
  induction calls with
  | nil => exact fun _ => rfl
  | cons c cs ih => exact fun h => trace_of_agree (h.call c) ih

end Scheme

/-! ## Courses of calls -/

/-- A scheme and the data it was last started on. -/
structure Course (α : Type) where
  scheme : Scheme α
  origin : Option (DataMap α)

namespace Course

variable [Scalar α]

/-- A call, after which the data are noted if they started the scheme. -/
def call (γ : Course α) (c : Call α) : Except (Violation α) (Course α) := do
  let reply ← γ.scheme.call c
  match c, reply.answer with
  | .start data, .ok () => .ok ⟨reply.scheme, some data⟩
  | _, _ => .ok ⟨reply.scheme, γ.origin⟩

def run (γ : Course α) : List (Call α) → Except (Violation α) (Course α)
  | [] => .ok γ
  | c :: cs => do
    let γ' ← γ.call c
    γ'.run cs

/-! ## What a course leaves of the settings -/

/-- A scheme that was built with some settings, and what was asked of it since. Once it was started
it can be started again on data with the same blocks. -/
inductive Settled (built : Scheme α) : Course α → Prop
  | constant (s : Constant α) {origin : Option (DataMap α)} (hbuilt : built = .constant s)
    (hpresent : ∀ d, origin = some d → d.requireAll s.dataIds = .ok ()) :
    Settled built ⟨.constant s, origin⟩
  | aitken (s : Aitken α) {origin : Option (DataMap α)} (hbuilt : built = .aitken s.reset)
    (hpresent : ∀ d, origin = some d → d.requireAll s.dataIds = .ok ()) :
    Settled built ⟨.aitken s, origin⟩
  | iqnIls (s : QuasiNewton α) {origin : Option (DataMap α)}
    (hbuilt : built = .iqnIls (.new s.config))
    (hweighting : s.preconditioner.config = s.config.preconditioner)
    (hidle : origin = none → s.started = false)
    (hbegun : ∀ d, origin = some d → s.Begun s.config d) : Settled built ⟨.iqnIls s, origin⟩

/-- Relaxation by a fixed factor learns nothing. -/
theorem constant_perform {s : Constant α} {d : DataMap α} {reply : Reply (Constant α) α}
    (h : s.perform d = .ok reply) : reply.scheme = s := by
  unfold Constant.perform at h
  split at h
  next =>
    obtain rfl := Except.ok.inj h
    rfl
  next =>
    obtain ⟨relaxed, -, h⟩ := bind_ok h
    obtain ⟨stored, -, h⟩ := bind_ok h
    obtain rfl := Except.ok.inj h
    rfl

/-- What Aitken relaxation learns from a call, a reset undoes. -/
theorem aitken_perform {s : Aitken α} {d : DataMap α} {reply : Reply (Aitken α) α}
    (h : s.perform d = .ok reply) : reply.scheme.reset = s.reset := by
  unfold Aitken.perform at h
  split at h
  next =>
    obtain rfl := Except.ok.inj h
    rfl
  next =>
    obtain ⟨residual, -, h⟩ := bind_ok h
    obtain ⟨factor, -, h⟩ := bind_ok h
    obtain ⟨relaxed, -, h⟩ := bind_ok h
    obtain ⟨stored, -, h⟩ := bind_ok h
    obtain rfl := Except.ok.inj h
    have hadapt : (s.adapt residual).reset = s.reset := by
      unfold Aitken.adapt
      split
      next =>
        split
        next => rfl
        next => rfl
      next => rfl
    exact hadapt

/-- What a call does to a course. -/
theorem call_cases {γ γ' : Course α} {c : Call α} (h : γ.call c = .ok γ') :
    (∃ d s, γ.scheme.start d = .ok s ∧ γ' = ⟨s, some d⟩) ∨
    (∃ d reply, γ.scheme.perform d = .ok reply ∧ γ' = ⟨reply.scheme, γ.origin⟩) ∨
    (∃ d reply, γ.scheme.converged d = .ok reply ∧ γ' = ⟨reply.scheme, γ.origin⟩) ∨
    γ' = ⟨γ.scheme.reset, γ.origin⟩ ∨ γ' = γ := by
  obtain ⟨reply, hr, h⟩ := bind_ok h
  cases c with
  | start d =>
    unfold Scheme.call at hr
    dsimp only at hr
    split at hr
    next s hs =>
      obtain rfl := Except.ok.inj hr
      exact .inl ⟨d, s, hs, (Except.ok.inj h).symm⟩
    next =>
      obtain rfl := Except.ok.inj hr
      exact .inr (.inr (.inr (.inr (Except.ok.inj h).symm)))
  | perform d => exact .inr (.inl ⟨d, reply, hr, (Except.ok.inj h).symm⟩)
  | converged d => exact .inr (.inr (.inl ⟨d, reply, hr, (Except.ok.inj h).symm⟩))
  | reset =>
    obtain rfl := Except.ok.inj hr
    exact .inr (.inr (.inr (.inl (Except.ok.inj h).symm)))

namespace Settled

variable {built s s' : Scheme α} {origin : Option (DataMap α)}

omit [Scalar α] in
/-- A quasi-Newton scheme that has begun. -/
theorem begun {s₀ s : QuasiNewton α} {d : DataMap α} (hbuilt : built = .iqnIls (.new s₀.config))
    (h : s.Begun s₀.config d) : Settled built ⟨.iqnIls s, some d⟩ := by
  have hsettings : s.config = s₀.config := h.settings
  rw [← hsettings] at hbuilt h
  refine .iqnIls s hbuilt h.weighting nofun fun _ hd => ?_
  rwa [← Option.some.inj hd]

omit [Scalar α] in
/-- A scheme keeps the settings it was built with. -/
theorem config_eq {c : Config α} {s : QuasiNewton α}
    (h : Settled (.iqnIls (.new c)) ⟨.iqnIls s, origin⟩) : s.config = c := by
  cases h with
  | iqnIls _ hbuilt => exact (congrArg QuasiNewton.config (Scheme.iqnIls.inj hbuilt)).symm

omit [Scalar α] in
/-- A scheme that was started has kept the blocks of its last start. -/
theorem begun_of_started {s : QuasiNewton α} (h : Settled built ⟨.iqnIls s, origin⟩)
    (hst : s.started = true) : ∃ first, origin = some first ∧ s.Begun s.config first := by
  cases h with
  | iqnIls _ _ _ hidle hbegun =>
    cases origin with
    | none => cases (hidle rfl).symm.trans hst
    | some first => exact ⟨first, rfl, hbegun first rfl⟩

theorem start {d : DataMap α} (h : Settled built ⟨s, origin⟩) (hs : s.start d = .ok s') :
    Settled built ⟨s', some d⟩ := by
  cases h with
  | constant s hbuilt =>
    obtain ⟨s₁, hstart, rfl⟩ := map_eq_ok.1 hs
    obtain ⟨⟨⟩, hreq, hsame⟩ := bind_ok hstart
    obtain rfl := Except.ok.inj hsame
    exact .constant s hbuilt fun _ h => Option.some.inj h ▸ hreq
  | aitken s hbuilt =>
    obtain ⟨s₁, hstart, rfl⟩ := map_eq_ok.1 hs
    obtain ⟨⟨⟩, hreq, hsame⟩ := bind_ok hstart
    obtain rfl := Except.ok.inj hsame
    exact .aitken s hbuilt fun _ h => Option.some.inj h ▸ hreq
  | iqnIls s hbuilt hweighting =>
    obtain ⟨s₁, hstart, rfl⟩ := map_eq_ok.1 hs
    exact .begun hbuilt (.start rfl hweighting hstart)

theorem perform {d : DataMap α} {reply : Reply (Scheme α) α} (h : Settled built ⟨s, origin⟩)
    (hp : s.perform d = .ok reply) : Settled built ⟨reply.scheme, origin⟩ := by
  cases h with
  | constant s hbuilt hpresent =>
    obtain ⟨reply, hstep, rfl⟩ := map_eq_ok.1 hp
    rw [Reply.map, constant_perform hstep]
    exact .constant s hbuilt hpresent
  | aitken s hbuilt hpresent =>
    obtain ⟨reply, hstep, rfl⟩ := map_eq_ok.1 hp
    have hreset := aitken_perform hstep
    have hids : reply.scheme.reset.dataIds = s.dataIds := by rw [hreset]; rfl
    exact .aitken reply.scheme (hreset.symm ▸ hbuilt) fun d h => hids.symm ▸ hpresent d h
  | iqnIls s hbuilt hweighting hidle hbegun =>
    obtain ⟨reply, hstep, rfl⟩ := map_eq_ok.1 hp
    cases origin with
    | none =>
      rw [QuasiNewton.perform, QuasiNewton.accept, hidle rfl] at hstep
      obtain rfl := Except.ok.inj hstep
      exact .iqnIls s hbuilt hweighting hidle hbegun
    | some d₀ => exact .begun hbuilt ((hbegun d₀ rfl).perform hstep)

theorem converged {d : DataMap α} {reply : Reply (Scheme α) α} (h : Settled built ⟨s, origin⟩)
    (hp : s.converged d = .ok reply) : Settled built ⟨reply.scheme, origin⟩ := by
  cases h with
  | constant s hbuilt hpresent =>
    obtain rfl := Except.ok.inj hp
    exact .constant s hbuilt hpresent
  | aitken s hbuilt hpresent =>
    obtain rfl := Except.ok.inj hp
    exact .aitken s.converged hbuilt hpresent
  | iqnIls s hbuilt hweighting hidle hbegun =>
    obtain ⟨reply, hstep, rfl⟩ := map_eq_ok.1 hp
    cases origin with
    | none =>
      rw [QuasiNewton.converged, hidle rfl] at hstep
      obtain rfl := Except.ok.inj hstep
      exact .iqnIls s hbuilt hweighting hidle hbegun
    | some d₀ => exact .begun hbuilt ((hbegun d₀ rfl).converged hstep)

theorem reset (h : Settled built ⟨s, origin⟩) : Settled built ⟨s.reset, origin⟩ := by
  cases h with
  | constant s hbuilt hpresent => exact .constant s hbuilt hpresent
  | aitken s hbuilt hpresent => exact .aitken s.reset hbuilt hpresent
  | iqnIls s hbuilt hweighting hidle hbegun =>
    exact .iqnIls s.reset hbuilt hweighting hidle fun d h => (hbegun d h).reset

/-- A call leaves a scheme with its settings. -/
theorem call {γ γ' : Course α} {c : Call α} (h : Settled built γ) (hc : γ.call c = .ok γ') :
    Settled built γ' := by
  rcases call_cases hc with ⟨d, s, hs, rfl⟩ | ⟨d, reply, hp, rfl⟩ | ⟨d, reply, hp, rfl⟩ | rfl | rfl
  · exact h.start hs
  · exact h.perform hp
  · exact h.converged hp
  · exact h.reset
  · exact h

theorem run : ∀ {calls : List (Call α)} {γ γ' : Course α}, Settled built γ →
    γ.run calls = .ok γ' → Settled built γ' := by
  intro calls
  induction calls with
  | nil =>
    intro γ γ' h hr
    obtain rfl := Except.ok.inj hr
    exact h
  | cons c cs ih =>
    intro γ γ' h hr
    obtain ⟨γ₁, hc, hr⟩ := bind_ok hr
    exact ih (h.call hc) hr

/-- A scheme that was just assembled. -/
theorem assemble {config : Config α} (h : Scheme.assemble config = .ok built) :
    Settled built ⟨built, none⟩ := by
  unfold Scheme.assemble at h
  split at h
  next =>
    obtain ⟨s, -, rfl⟩ := map_eq_ok.1 h
    exact .constant s rfl nofun
  next =>
    obtain ⟨s, hs, rfl⟩ := map_eq_ok.1 h
    unfold Aitken.new at hs
    split at hs
    next =>
      obtain rfl := Except.ok.inj hs
      exact .aitken _ rfl nofun
    next => cases hs
  next =>
    obtain rfl := Except.ok.inj h
    exact .iqnIls _ rfl rfl (fun _ => rfl) nofun

/-- A scheme that was just built. -/
theorem build {config : Config α} (h : Scheme.build config = .ok built) :
    Settled built ⟨built, none⟩ := by
  unfold Scheme.build at h
  split at h
  next => cases h
  next => exact assemble (mapError_eq_ok.1 h)

end Settled

/-! ## Starting over -/

omit [Scalar α] in
theorem requireAll_of_keys {d first : DataMap α} (h : d.keys = first.keys) {ids : List DataId}
    (hall : first.requireAll ids = .ok ()) : d.requireAll ids = .ok () := by
  refine DataMap.requireAll_ok_iff.2 fun id hid => ?_
  rw [OrderedMap.contains_iff_mem_keys, h, ← OrderedMap.contains_iff_mem_keys]
  exact DataMap.requireAll_ok_iff.1 hall id hid

/-- After any course of calls, a reset makes a scheme answer like one that was just built and
started on data with the blocks of its last start and the recorded lengths; and it answers like that
without a reset when it is called on data in which a block has another length. -/
theorem run_renewed {config : Config α} {built : Scheme α} {calls : List (Call α)} {γ : Course α}
    {first d : DataMap α} (hbuild : Scheme.build config = .ok built)
    (hrun : run ⟨built, none⟩ calls = .ok γ) (hfirst : γ.origin = some first)
    (hkeys : d.keys = first.keys) : ∃ fresh, built.start d = .ok fresh ∧
      ((∀ id n, γ.scheme.recorded id = some n → (d.find? id).map Block.size = some n) →
        γ.scheme.reset.visible = fresh.visible ∧
          ∀ later, γ.scheme.reset.trace later = fresh.trace later) ∧
      ((∃ id n, γ.scheme.recorded id = some n ∧ (d.find? id).map Block.size ≠ some n) →
        ∀ later, γ.scheme.trace (.perform d :: later) = fresh.trace (.perform d :: later)) := by
  have hsettled := (Settled.build hbuild).run hrun
  cases hsettled with
  | constant s hbuilt hpresent =>
    have hreq := requireAll_of_keys hkeys (hpresent first hfirst)
    refine ⟨.constant s, ?_, fun _ => ⟨rfl, fun _ => rfl⟩, fun ⟨_, _, hn, _⟩ => nomatch hn⟩
    rw [hbuilt, Scheme.start, Constant.start, hreq]
    rfl
  | aitken s hbuilt hpresent =>
    have hreq : d.requireAll s.reset.dataIds = .ok () :=
      requireAll_of_keys hkeys (hpresent first hfirst)
    refine ⟨.aitken s.reset, ?_, fun _ => ⟨rfl, fun _ => rfl⟩, fun ⟨_, _, hn, _⟩ => nomatch hn⟩
    rw [hbuilt, Scheme.start, Aitken.start, hreq]
    rfl
  | iqnIls s hbuilt hweighting hidle hbegun =>
    have hbegun := hbegun first hfirst
    have hreq := requireAll_of_keys hkeys (DataMap.requireAll_ok_iff.2 hbegun.present)
    have hstart := QuasiNewton.start_new (DataMap.requireAll_ok_iff.1 hreq)
    refine ⟨.iqnIls (.fresh s.config d), ?_, fun hd => ?_, fun ⟨id, n, hn, hd⟩ later => ?_⟩
    · rw [hbuilt, Scheme.start, hstart]
      rfl
    · have halike : Scheme.Alike (.iqnIls (.fresh s.config d)) (.iqnIls s.reset) :=
        .iqnIls (hbegun.reset_alike hkeys hd)
      exact ⟨halike.visible.symm, fun later => halike.trace.symm⟩
    · have hagree : Agree Scheme.Alike
          (Scheme.call (.iqnIls (.fresh s.config d)) (.perform d))
          (Scheme.call (.iqnIls s) (.perform d)) :=
        (hbegun.perform_alike hkeys hn hd).map .iqnIls
      exact (Scheme.trace_of_agree hagree Scheme.Alike.trace).symm

open Session (single plain plain_valid)

theorem build_plain : Scheme.build plain = .ok (.iqnIls (.new plain)) := by
  rw [Scheme.build, plain_valid]
  rfl

/-- A data map with one block of two values. -/
def double (value old : ℝ) : DataMap ℝ := .ofList [(0, ⟨[value, value], [old, old], 1⟩)]

/-- After a call on one value, reset for one value or called on two. -/
theorem run_renewed_two_lengths : ∃ (built one two : Scheme ℝ) (γ : Course ℝ),
    Scheme.build plain = .ok built ∧
    run ⟨built, none⟩ [.start (single 1 0), .perform (single 1 0)] = .ok γ ∧
    (built.start (single 3 1) = .ok one ∧ ∀ later, γ.scheme.reset.trace later = one.trace later) ∧
    (built.start (double 3 1) = .ok two ∧
      ∀ later, γ.scheme.trace (.perform (double 3 1) :: later) =
        two.trace (.perform (double 3 1) :: later)) := by
  have hbuild := build_plain
  obtain ⟨γ, hrun, horigin, hrecorded⟩ : ∃ γ : Course ℝ,
      run ⟨.iqnIls (.new plain), none⟩ [.start (single 1 0), .perform (single 1 0)] = .ok γ ∧
      γ.origin = some (single 1 0) ∧ ∀ id, γ.scheme.recorded id = [(0, 1)].lookup id :=
    ⟨_, rfl, rfl, fun _ => rfl⟩
  obtain ⟨one, hone, hreset, -⟩ := run_renewed (d := single 3 1) hbuild hrun horigin rfl
  obtain ⟨two, htwo, -, hperform⟩ := run_renewed (d := double 3 1) hbuild hrun horigin rfl
  refine ⟨_, one, two, γ, hbuild, hrun, ⟨hone, (hreset fun id n hn => ?_).2⟩, htwo,
    hperform ⟨0, 1, hrecorded 0, nofun⟩⟩
  rw [hrecorded, OrderedMap.lookup_cons_eq_ite] at hn
  split at hn
  next h0 =>
    obtain rfl : id = 0 := h0
    exact hn
  next => cases hn

end Course

end Cosimulation.Acceleration

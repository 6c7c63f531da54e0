import Cosimulation.Proofs.Preconditioner.Freezing
import Cosimulation.Proofs.QuasiNewton.Fitting

/-!
# When a session takes its weights anew

What a session asks of its preconditioner can be read off its chronicle: every visit accumulates its
residual, and the first visit of a window then takes the weights anew (`Chronicle.operations`). The
residual of that visit is accumulated before, so it counts for the weights that it takes itself.

While nothing but the start renewed the scheme (`RenewedOnce`), the preconditioner is what comes of
these operations (`Session.Unbroken`). The windows of the visits carry the proof
(`Session.Paced`): they ascend, and the window of a call has no visit yet exactly if the scheme is
at its first iteration (`Paced.opens_iff`).
-/

namespace Cosimulation.Acceleration

open Preconditioner (Operation updates Staying)

variable {α : Type}

/-- Nothing but the first of these renewals took place. -/
def RenewedOnce (marks : List Mark) : Prop := ∃ ms, marks = .renewed :: ms ∧ .renewed ∉ ms

theorem renewedOnce_append {ms new : List Mark} (h : RenewedOnce (ms ++ new)) :
    ms = [] ∧ RenewedOnce new ∨ RenewedOnce ms ∧ .renewed ∉ new := by
  cases ms with
  | nil => exact .inl ⟨rfl, h⟩
  | cons m ms =>
    obtain ⟨rest, heq, hno⟩ := h
    rw [List.cons_append] at heq
    obtain ⟨rfl, rfl⟩ := List.cons.inj heq
    rw [List.mem_append, not_or] at hno
    exact .inr ⟨⟨ms, rfl, hno.1⟩, hno.2⟩

/-- Calls that fit renew nothing after the start. -/
theorem renewedOnce_fitting (calls : List (Call α)) :
    RenewedOnce (.renewed :: calls.map Call.mark) := by
  refine ⟨_, rfl, fun hmem => ?_⟩
  obtain ⟨c, -, hc⟩ := List.mem_map.1 hmem
  cases c <;> cases hc

/-! ## What the visits ask -/

/-- What a call asks of the preconditioner. -/
def Snapshot.operations (now : Snapshot α) (first : Bool) : List (Operation α) :=
  .accumulate now.residual :: if first then [.update now.iterate now.residual, .acknowledge] else []

theorem Snapshot.staying_operations (now : Snapshot α) (first : Bool) :
    Staying (now.operations first) := by
  intro op hop
  unfold Snapshot.operations at hop
  split at hop <;> simp only [List.mem_cons, List.not_mem_nil, or_false] at hop
  · rcases hop with rfl | rfl | rfl <;> rfl
  · exact hop ▸ rfl

namespace Chronicle

/-- A visit is the first of its window. -/
def Opens (χ : Chronicle α) (i : Nat) : Prop := ∀ j < i, χ.windowOf j ≠ χ.windowOf i

instance (χ : Chronicle α) (i : Nat) : Decidable (χ.Opens i) :=
  inferInstanceAs (Decidable (∀ j < i, χ.windowOf j ≠ χ.windowOf i))

/-- The number of windows that have a visit. -/
def opened (χ : Chronicle α) : Nat := (List.range χ.visits.length).countP fun i => χ.Opens i

theorem opens_visit {χ : Chronicle α} {d : DataMap α} {i : Nat} (h : i < χ.visits.length) :
    (χ.visit d).Opens i ↔ χ.Opens i := by
  unfold Opens
  refine forall₂_congr fun j hj => ?_
  rw [windowOf_visit h, windowOf_visit (hj.trans h)]

variable [Scalar α]

/-- What a visit saw of the primary blocks. -/
def snapshot (χ : Chronicle α) (i : Nat) : Snapshot α := ⟨χ.residual i, χ.iterate i⟩

/-- What the first `n` visits ask of the preconditioner. -/
def asked (χ : Chronicle α) (n : Nat) : List (Operation α) :=
  (List.range n).flatMap fun i => (χ.snapshot i).operations (χ.Opens i)

/-- What the visits ask of the preconditioner. -/
def operations (χ : Chronicle α) : List (Operation α) := χ.asked χ.visits.length

theorem asked_succ (χ : Chronicle α) (n : Nat) :
    χ.asked (n + 1) = χ.asked n ++ (χ.snapshot n).operations (χ.Opens n) := by
  rw [asked, List.range_succ, List.flatMap_append, List.flatMap_singleton, asked]

variable {χ : Chronicle α} {d : DataMap α}

theorem operations_visit : (χ.visit d).operations = χ.operations ++
    Snapshot.operations ⟨(d.stacked χ.dataIds).sub (d.stackedOld χ.dataIds), d.stacked χ.dataIds⟩
      ((χ.visit d).Opens χ.visits.length) := by
  rw [operations, length_visits_visit, asked_succ, snapshot, residual_visit_length,
    iterate_visit_length, operations]
  congr 1
  refine List.flatMap_congr fun i hi => ?_
  have hlt := List.mem_range.1 hi
  rw [snapshot, snapshot, residual_visit hlt, iterate_visit hlt, decide_eq_decide.2 (opens_visit hlt)]

theorem staying_asked (χ : Chronicle α) (n : Nat) : Staying (χ.asked n) := fun op hop => by
  obtain ⟨i, -, hop⟩ := List.mem_flatMap.1 hop
  exact Snapshot.staying_operations _ _ op hop

/-- The weights are taken anew once for each window. -/
theorem updates_operations (χ : Chronicle α) : updates χ.operations = χ.opened := by
  unfold operations asked opened
  induction List.range χ.visits.length with
  | nil => rfl
  | cons i is ih =>
    rw [List.flatMap_cons, List.countP_cons, ← ih, updates, List.countP_append, Nat.add_comm]
    congr 1
    unfold Snapshot.operations
    split <;> rfl

end Chronicle

/-! ## What a call asks -/

variable [Scalar α]

omit [Scalar α] in
theorem Preconditioner.acknowledge_eq {p : Preconditioner α} (h : p.weightsChanged = false) :
    p.acknowledge = p := by
  cases p
  cases h
  rfl

namespace QuasiNewton

variable {s s' : QuasiNewton α}

theorem reweigh_run {v r : Vec α} (hack : s.preconditioner.weightsChanged = false)
    (h : s.reweigh v r = .ok s') :
    s.preconditioner.run (if s.firstIteration then [.update v r, .acknowledge] else []) =
        .ok s'.preconditioner ∧ s'.preconditioner.weightsChanged = false := by
  unfold reweigh at h
  split at h
  next hclosed =>
    obtain rfl := Except.ok.inj h
    refine ⟨?_, hack⟩
    cases hfirst : s.firstIteration with
    | false => rfl
    | true =>
      -- the update that does not take place would do nothing
      have hfrozen := hclosed.resolve_left (by rw [hfirst]; exact Bool.noConfusion)
      have hupdate : s.preconditioner.update v r = .ok s.preconditioner := if_pos (.inl hfrozen)
      show s.preconditioner.update v r >>= _ = _
      rw [hupdate]
      exact congrArg Except.ok (Preconditioner.acknowledge_eq hack)
  next hopen =>
    rw [not_or, Bool.not_eq_true, Bool.not_eq_false'] at hopen
    obtain ⟨unscaled, -, h⟩ := bind_ok h
    obtain ⟨p, hp, h⟩ := bind_ok h
    obtain ⟨residuals, -, h⟩ := bind_ok h
    have hrun : s.preconditioner.run (if s.firstIteration then [.update v r, .acknowledge] else []) =
        .ok p.acknowledge := by
      rw [if_pos hopen.1]
      show s.preconditioner.update v r >>= _ = _
      rw [hp]
      rfl
    rw [hrun]
    dsimp only at h
    split at h
    next =>
      obtain ⟨⟨f, refused⟩, -, h⟩ := bind_ok h
      obtain ⟨s₁, hs₁, h⟩ := bind_ok h
      obtain rfl := Except.ok.inj h
      obtain ⟨history, -, hs₁⟩ := bind_ok hs₁
      obtain rfl := Except.ok.inj hs₁
      exact ⟨rfl, rfl⟩
    next hsame =>
      obtain rfl := Except.ok.inj h
      have hsame := Bool.eq_false_iff.2 hsame
      exact ⟨congrArg Except.ok (Preconditioner.acknowledge_eq hsame), hsame⟩

theorem learn_run {d : DataMap α} {now : Snapshot α}
    (hack : s.preconditioner.weightsChanged = false) (h : s.learn d now = .ok s') :
    s.preconditioner.run (now.operations s.firstIteration) = .ok s'.preconditioner ∧
      s'.preconditioner.weightsChanged = false := by
  obtain ⟨p, hp, h⟩ := bind_ok h
  obtain ⟨s₁, h₁, h⟩ := bind_ok h
  obtain ⟨⟨s₂, added⟩, h₂, h⟩ := bind_ok h
  obtain ⟨s₃, h₃, h₄⟩ := bind_ok h
  have hkept : s'.preconditioner = s₁.preconditioner := by
    refine (applyFilter_preconditioner h₄).trans (Eq.trans ?_ (extend_preconditioner h₂))
    obtain ⟨_, _, rfl⟩ := noteSecondary_only h₃
    rfl
  have hchanged : p.weightsChanged = false := by
    obtain ⟨sums, rfl⟩ := Preconditioner.accumulate_eq hp
    exact hack
  obtain ⟨hrun, hack₁⟩ := reweigh_run (s := { s with preconditioner := p }) hchanged h₁
  rw [hkept]
  refine ⟨?_, hack₁⟩
  show s.preconditioner.accumulate now.residual >>= _ = _
  rw [hp]
  exact hrun

end QuasiNewton

/-! ## Calls that renew nothing -/

namespace Session

variable {W : Weighing α} {σ σ' : Session α} {ms : List Mark}

/-- Data with all blocks either leave the session as it is or renew it. -/
theorem Follows.adapt_eq (hf : σ.Follows) (hst : σ.chronicle.started = true) {d : DataMap α}
    (hd : ∀ id ∈ σ.chronicle.trackedIds, d.contains id = true) :
    (σ.chronicle.arrival d = [] ∧ σ.scheme.adapt d = σ.scheme ∧ σ.chronicle.meet d = σ.chronicle) ∨
      (σ.chronicle.arrival d = [.renewed] ∧ σ.scheme.adapt d = σ.scheme.reset.record d ∧
        σ.chronicle.meet d = { σ.chronicle.turn with fitted := d }) := by
  rw [QuasiNewton.adapt, Chronicle.meet, Chronicle.arrival, hf.isRemeshed_eq hst hd, hst,
    Bool.true_and]
  split
  next => exact .inr ⟨rfl, rfl, rfl⟩
  next => exact .inl ⟨rfl, rfl, rfl⟩

/-- Data that are no remeshing leave it as it is. -/
theorem Follows.unremeshed (hf : σ.Follows) (hst : σ.chronicle.started = true) {d : DataMap α}
    (hd : ∀ id ∈ σ.chronicle.trackedIds, d.contains id = true)
    (hno : .renewed ∉ σ.chronicle.arrival d) :
    σ.scheme.adapt d = σ.scheme ∧ σ.chronicle.meet d = σ.chronicle := by
  rcases hf.adapt_eq hst hd with ⟨-, hsame⟩ | ⟨hrenewed, -⟩
  · exact hsame
  · rw [hrenewed] at hno
    exact absurd List.mem_cons_self hno

/-- An answered call on such data is a step of the scheme as it is. -/
theorem Sound.answered_step (h : σ.Sound W) {d : DataMap α} {reply : Reply (QuasiNewton α) α}
    (hp : σ.scheme.perform d = .ok reply) (hanswer : reply.answer = .ok ())
    (hno : .renewed ∉ σ.chronicle.arrival d) :
    σ.chronicle.meet d = σ.chronicle ∧ σ.chronicle.started = true ∧ σ.chronicle.Fitting d ∧
      σ.scheme.step d (d.stacked σ.chronicle.dataIds) (d.stackedOld σ.chronicle.dataIds) =
        .ok (reply.scheme, reply.data) := by
  rcases perform_cases h hp with ⟨hrefused, -⟩ | ⟨-, hst, hall, hfit, hs⟩
  · rw [hanswer] at hrefused
    cases hrefused
  · obtain ⟨hscheme, hmeet⟩ := h.follows.unremeshed hst hall hno
    rw [hmeet] at hfit hs
    rw [hscheme] at hs
    exact ⟨hmeet, hst, hfit, hs⟩

/-- A refused call does at most what its data do when they come in. -/
theorem Follows.refused (hf : σ.Follows) {d : DataMap α} {reply : Reply (QuasiNewton α) α}
    (hp : σ.scheme.perform d = .ok reply) (hno : reply.answer.isOk = false) :
    (reply.scheme = σ.scheme ∧ σ.chronicle.meet d = σ.chronicle) ∨
      (reply.scheme = σ.scheme.adapt d ∧ σ.chronicle.started = true ∧
        ∀ id ∈ σ.chronicle.trackedIds, d.contains id = true) := by
  unfold QuasiNewton.perform at hp
  obtain ⟨answer, s', ha⟩ : ∃ answer s', σ.scheme.accept d = (answer, s') := ⟨_, _, rfl⟩
  rw [ha] at hp
  rcases QuasiNewton.accept_cases ha with ⟨rfl, ⟨fault, rfl⟩, hnot⟩ | ⟨rfl, ⟨hst, hall⟩, -⟩
  · obtain rfl := Except.ok.inj hp
    exact .inl ⟨rfl, hf.meet_eq hnot⟩
  · cases answer with
    | error fault =>
      obtain rfl := Except.ok.inj hp
      exact .inr ⟨rfl, hf.started ▸ hst, hf.trackedIds ▸ hall⟩
    | ok pair =>
      obtain ⟨⟨s₁, d'⟩, -, hp⟩ := bind_ok hp
      obtain rfl := Except.ok.inj hp
      cases hno

/-- What a call that renews nothing does. -/
inductive Undisturbed (σ : Session α) : Call α → Session α → Prop
  | refused {c : Call α} : Undisturbed σ c σ
  | answered {d d' : DataMap α} {s' : QuasiNewton α} (started : σ.chronicle.started = true)
    (fitting : σ.chronicle.Fitting d)
    (step : σ.scheme.step d (d.stacked σ.chronicle.dataIds) (d.stackedOld σ.chronicle.dataIds) =
      .ok (s', d')) : Undisturbed σ (.perform d) ⟨s', σ.chronicle.visit d⟩
  | turned {d : DataMap α} {s' : QuasiNewton α}
    (weights : s'.preconditioner = σ.scheme.preconditioner) :
    Undisturbed σ (.converged d) ⟨s', σ.chronicle.turn⟩

theorem undisturbed (h : σ.Sound W) {c : Call α} {answer : Except (Fault α) Unit}
    {s' : QuasiNewton α} (hc : σ.scheme.call c = .ok (answer, s'))
    (hno : .renewed ∉ σ.chronicle.marks c answer.isOk) :
    σ.Undisturbed c ⟨s', σ.chronicle.note c answer.isOk⟩ := by
  have hf := h.follows
  cases c with
  | start d =>
    rw [QuasiNewton.call] at hc
    split at hc
    next =>
      obtain ⟨rfl, rfl⟩ := Prod.mk.inj (Except.ok.inj hc)
      exact absurd List.mem_cons_self hno
    next =>
      obtain ⟨rfl, rfl⟩ := Prod.mk.inj (Except.ok.inj hc)
      exact .refused
  | perform d =>
    obtain ⟨reply, hp, hc⟩ := bind_ok hc
    obtain ⟨rfl, rfl⟩ := Prod.mk.inj (Except.ok.inj hc)
    have harrival : .renewed ∉ σ.chronicle.arrival d := fun hr =>
      hno (List.mem_append_left _ hr)
    cases hanswer : reply.answer with
    | ok u =>
      obtain ⟨hmeet, hst, hfit, hs⟩ := h.answered_step hp hanswer harrival
      show σ.Undisturbed _ ⟨reply.scheme, (σ.chronicle.meet d).visit d⟩
      rw [hmeet]
      exact .answered hst hfit hs
    | error fault =>
      show σ.Undisturbed _ ⟨reply.scheme, σ.chronicle.meet d⟩
      have hrefused : reply.answer.isOk = false := by
        rw [hanswer]
        rfl
      rcases hf.refused hp hrefused with ⟨hscheme, hmeet⟩ | ⟨hscheme, hst, hall⟩
      · rw [hscheme, hmeet]
        exact .refused
      · rw [hscheme, (hf.unremeshed hst hall harrival).1, (hf.unremeshed hst hall harrival).2]
        exact .refused
  | converged d =>
    obtain ⟨reply, hp, hc⟩ := bind_ok hc
    obtain ⟨rfl, rfl⟩ := Prod.mk.inj (Except.ok.inj hc)
    rcases QuasiNewton.converged_eq hp with
      ⟨-, hrefused, hscheme⟩ | ⟨-, hanswered, s₁, hr, hscheme⟩
    · rw [hrefused, hscheme]
      exact .refused
    · rw [hanswered]
      have hkept := QuasiNewton.retain_preconditioner hr
      exact .turned (hscheme ▸ hkept)
  | reset => exact absurd List.mem_cons_self hno

/-! ## The windows of the visits -/

/-- The visits of a session in their windows, and no change of weights that was not dealt with. -/
structure Paced (σ : Session α) : Prop where
  weighting : σ.scheme.preconditioner.config = σ.chronicle.config.preconditioner
  acknowledged : σ.scheme.preconditioner.weightsChanged = false
  idle : σ.chronicle.started = false → σ.chronicle.visits = []
  past : ∀ v ∈ σ.chronicle.visits, v.window ≤ σ.chronicle.window
  fresh : σ.scheme.firstIteration = true → ∀ v ∈ σ.chronicle.visits, v.window < σ.chronicle.window
  ascending : σ.chronicle.visits.Pairwise fun v w => v.window ≤ w.window

omit [Scalar α] in
theorem new_paced (config : Config α) : (new config).Paced :=
  ⟨rfl, rfl, fun _ => rfl, fun _ h => absurd h List.not_mem_nil,
    fun _ _ h => absurd h List.not_mem_nil, .nil⟩

omit [Scalar α] in
/-- A window begins, whatever else happens. -/
theorem Paced.turn (h : σ.Paced) {s' : QuasiNewton α} {χ' : Chronicle α}
    (hweighting : s'.preconditioner.config = σ.scheme.preconditioner.config)
    (hack : s'.preconditioner.weightsChanged = false) (hconfig : χ'.config = σ.chronicle.config)
    (hstarted : χ'.started = σ.chronicle.started ∨ χ'.started = true)
    (hvisits : χ'.visits = σ.chronicle.visits) (hwindow : χ'.window = σ.chronicle.window + 1) :
    Paced ⟨s', χ'⟩ := by
  have hpast : ∀ v ∈ χ'.visits, v.window < χ'.window := fun v hv => by
    rw [hwindow]
    exact Nat.lt_succ_of_le (h.past v (hvisits ▸ hv))
  refine ⟨hweighting.trans (h.weighting.trans (congrArg _ hconfig.symm)), hack, fun hno => ?_,
    fun v hv => (hpast v hv).le, fun _ => hpast, hvisits ▸ h.ascending⟩
  rcases hstarted with hsame | hyes
  · exact hvisits.trans (h.idle (hsame ▸ hno))
  · exact absurd (hyes.symm.trans hno) Bool.noConfusion

theorem Paced.step (h : σ.Paced) (hst : σ.chronicle.started = true) {d d' : DataMap α}
    {values old : Vec α} {s' : QuasiNewton α} (hs : σ.scheme.step d values old = .ok (s', d')) :
    Paced ⟨s', σ.chronicle.visit d⟩ := by
  obtain ⟨s₁, coefficients, -, hl, -, rfl⟩ := QuasiNewton.step_eq hs
  obtain ⟨-, hack⟩ := QuasiNewton.learn_run h.acknowledged hl
  refine ⟨(QuasiNewton.learn_framed hl).1.weighting.trans h.weighting, hack,
    fun hno => absurd (hst.symm.trans hno) Bool.noConfusion, fun v hv => ?_, nofun, ?_⟩
  · rcases List.mem_append.1 hv with hv | hv
    · exact h.past v hv
    · rw [List.mem_singleton.1 hv]
      exact Nat.le_refl _
  · refine List.pairwise_append.2 ⟨h.ascending, List.pairwise_singleton _ _, fun v hv w hw => ?_⟩
    rw [List.mem_singleton.1 hw]
    exact h.past v hv

theorem Paced.adapt (h : σ.Paced) (hf : σ.Follows) (hst : σ.chronicle.started = true)
    {d : DataMap α} (hd : ∀ id ∈ σ.chronicle.trackedIds, d.contains id = true) :
    Paced ⟨σ.scheme.adapt d, σ.chronicle.meet d⟩ := by
  rcases hf.adapt_eq hst hd with ⟨-, hscheme, hmeet⟩ | ⟨-, hscheme, hmeet⟩
  · rw [hscheme, hmeet]
    exact h
  · rw [hscheme, hmeet]
    exact h.turn rfl rfl rfl (.inl rfl) rfl rfl

theorem call_paced {c : Call α} (h : σ.Paced) (hs : σ.Sound W) (hc : σ.call c = .ok σ') :
    σ'.Paced := by
  have hf := hs.follows
  cases served hc with
  | started hstart =>
    obtain ⟨-, rfl⟩ := QuasiNewton.start_eq hstart
    exact h.turn rfl rfl rfl (.inr rfl) rfl rfl
  | refused => exact h
  | @performed d reply hp =>
    rcases perform_cases hs hp with ⟨hrefused, -⟩ | ⟨hanswered, hst, hall, -, hstep⟩
    · rw [hrefused]
      show Paced ⟨reply.scheme, σ.chronicle.meet d⟩
      rcases hf.refused hp hrefused with ⟨hscheme, hmeet⟩ | ⟨hscheme, hst, hall⟩
      · rw [hscheme, hmeet]
        exact h
      · rw [hscheme]
        exact h.adapt hf hst hall
    · rw [hanswered]
      exact (h.adapt hf hst hall).step ((σ.chronicle.started_meet d).trans hst) hstep
  | @converged d reply hp =>
    rcases QuasiNewton.converged_eq hp with
      ⟨-, hrefused, hscheme⟩ | ⟨-, hanswered, s₁, hr, hscheme⟩
    · rw [hrefused, hscheme]
      exact h
    · rw [hanswered, hscheme]
      have hkept := QuasiNewton.retain_preconditioner hr
      exact h.turn (congrArg _ hkept) ((congrArg _ hkept).trans h.acknowledged) rfl (.inl rfl) rfl
        rfl
  | reset => exact h.turn rfl rfl rfl (.inl rfl) rfl rfl

/-- The next visit is the first of its window if the scheme says so. -/
theorem Paced.opens_iff (h : σ.Paced) (hf : σ.Follows) (d : DataMap α) :
    (σ.chronicle.visit d).Opens σ.chronicle.visits.length ↔ σ.scheme.firstIteration = true := by
  have hwindow : ∀ j < σ.chronicle.visits.length, ∃ v ∈ σ.chronicle.visits,
      (σ.chronicle.visit d).windowOf j = v.window := fun j hj => by
    refine ⟨_, List.getElem_mem hj, ?_⟩
    rw [Chronicle.windowOf_visit hj, Chronicle.windowOf, List.getElem?_eq_getElem hj]
    rfl
  constructor
  · intro hopens
    by_contra hlater
    obtain ⟨n, hn, hlast, -⟩ := hf.newest (Bool.eq_false_iff.2 hlater)
    have hlt : n < σ.chronicle.visits.length := hn ▸ Nat.lt_succ_self n
    refine hopens n hlt ?_
    rw [Chronicle.windowOf_visit hlt, Chronicle.windowOf_visit_length, hlast]
  · intro hfirst j hj
    obtain ⟨v, hv, hjv⟩ := hwindow j hj
    rw [hjv, Chronicle.windowOf_visit_length]
    exact (h.fresh hfirst v hv).ne

/-! ## The weights of a session -/

/-- The preconditioner is what the visits make of one that was fitted once. -/
structure Unbroken (σ : Session α) : Prop where
  weights : ∃ sizes,
    ((Preconditioner.new σ.chronicle.config.preconditioner).fit sizes).run σ.chronicle.operations =
      .ok σ.scheme.preconditioner
  fitting : ∀ v ∈ σ.chronicle.visits, σ.chronicle.Fitting v.data

/-- Weights are frozen when as many windows as the limit says had a visit, but at least one. -/
theorem Unbroken.frozen_iff (h : σ.Unbroken)
    (hkind : σ.chronicle.config.preconditioner.kind ≠ .constant) :
    σ.scheme.preconditioner.frozen = true ↔
      ∃ limit, σ.chronicle.config.preconditioner.maxNonConstWindows = some limit ∧
        max 1 limit ≤ σ.chronicle.opened := by
  obtain ⟨sizes, hrun⟩ := h.weights
  rw [← Chronicle.updates_operations]
  exact Preconditioner.frozen_iff hkind (σ.chronicle.staying_asked _) hrun

/-- What the next visit asks of the preconditioner. -/
theorem Paced.step_run (h : σ.Paced) (hf : σ.Follows) {d d' : DataMap α} {s' : QuasiNewton α}
    (hs : σ.scheme.step d (d.stacked σ.chronicle.dataIds) (d.stackedOld σ.chronicle.dataIds) =
      .ok (s', d')) :
    σ.scheme.preconditioner.run (Snapshot.operations
        ⟨(d.stacked σ.chronicle.dataIds).sub (d.stackedOld σ.chronicle.dataIds),
          d.stacked σ.chronicle.dataIds⟩
        ((σ.chronicle.visit d).Opens σ.chronicle.visits.length)) = .ok s'.preconditioner := by
  obtain ⟨s₁, coefficients, -, hl, -, rfl⟩ := QuasiNewton.step_eq hs
  rw [Bool.decide_congr (h.opens_iff hf d), Bool.decide_eq_true]
  exact (QuasiNewton.learn_run h.acknowledged hl).1

theorem Unbroken.call (h : σ.Unbroken) (hp : σ.Paced) (hf : σ.Follows) {c : Call α}
    (hc : σ.Undisturbed c σ') : σ'.Unbroken := by
  cases hc with
  | refused => exact h
  | @answered d d' s' hst hfit hs =>
    obtain ⟨sizes, hrun⟩ := h.weights
    refine ⟨⟨sizes, ?_⟩, List.forall_mem_append.2 ⟨h.fitting, ?_⟩⟩
    · rw [Chronicle.operations_visit, Preconditioner.run_append]
      show (((Preconditioner.new σ.chronicle.config.preconditioner).fit sizes).run
        σ.chronicle.operations >>= _) = _
      rw [hrun]
      exact hp.step_run hf hs
    · intro v hv
      rw [List.mem_singleton.1 hv]
      exact hfit
  | turned hkept => exact ⟨hkept.symm ▸ h.weights, h.fitting⟩

/-- The first renewal. -/
theorem unbroken_of_fit {s : QuasiNewton α} {χ : Chronicle α} {p : Preconditioner α}
    {sizes : List Nat} (hp : s.preconditioner = p.fit sizes)
    (hconfig : p.config = χ.config.preconditioner) (hnone : χ.visits = []) :
    Unbroken ⟨s, χ⟩ := by
  refine ⟨⟨sizes, ?_⟩, fun v hv => absurd (hnone ▸ hv) List.not_mem_nil⟩
  show ((Preconditioner.new χ.config.preconditioner).fit sizes).run χ.operations = _
  rw [hp, Chronicle.operations, Chronicle.asked, hnone, ← hconfig]
  rfl

theorem Paced.renewed (h : σ.Paced) (hst : σ.chronicle.started = false) {c : Call α}
    {answer : Except (Fault α) Unit} {s' : QuasiNewton α}
    (hc : σ.scheme.call c = .ok (answer, s'))
    (hms : σ.chronicle.marks c answer.isOk = .renewed :: ms) :
    Unbroken ⟨s', σ.chronicle.note c answer.isOk⟩ := by
  have hnone := h.idle hst
  cases c with
  | start d =>
    rw [QuasiNewton.call] at hc
    split at hc
    next s₁ hs =>
      obtain ⟨rfl, rfl⟩ := Prod.mk.inj (Except.ok.inj hc)
      obtain ⟨-, rfl⟩ := QuasiNewton.start_eq hs
      exact unbroken_of_fit rfl h.weighting hnone
    next =>
      obtain ⟨rfl, rfl⟩ := Prod.mk.inj (Except.ok.inj hc)
      cases hms
  | perform d =>
    -- a scheme that was not started takes no data for a remeshing
    have harrival : σ.chronicle.arrival d = [] := by
      rw [Chronicle.arrival, hst]
      rfl
    rw [Chronicle.marks, harrival] at hms
    split at hms <;> cases hms
  | converged d =>
    rw [Chronicle.marks.eq_def] at hms
    cases answer <;> cases hms
  | reset =>
    obtain ⟨rfl, rfl⟩ := Prod.mk.inj (Except.ok.inj hc)
    exact unbroken_of_fit rfl h.weighting hnone

/-- The invariant of a run with its marks. -/
structure Traced (σ : Session α) (ms : List Mark) : Prop where
  sound : σ.Sound .silent
  placed : σ.Placed ms
  paced : σ.Paced
  unbroken : RenewedOnce ms → σ.Unbroken

theorem new_traced (config : Config α) : (new config).Traced [] :=
  ⟨new_sound _ config, new_placed config, new_paced config, fun ⟨_, h, _⟩ => nomatch h⟩

theorem call_traced {c : Call α} {answer : Except (Fault α) Unit} {s' : QuasiNewton α}
    (h : σ.Traced ms) (hc : σ.scheme.call c = .ok (answer, s')) :
    Traced ⟨s', σ.chronicle.note c answer.isOk⟩ (ms ++ σ.chronicle.marks c answer.isOk) := by
  have hcall := call_of_scheme hc
  refine ⟨call_sound h.sound hcall, call_placed h.placed h.sound.follows hc,
    call_paced h.paced h.sound hcall, fun honce => ?_⟩
  rcases renewedOnce_append honce with ⟨rfl, hnew⟩ | ⟨hbefore, hno⟩
  · -- nothing happened before, so this call is the start
    have hst : σ.chronicle.started = false :=
      Bool.eq_false_iff.2 fun hst => h.placed.begun hst rfl
    obtain ⟨ms, hms, -⟩ := hnew
    exact h.paced.renewed hst hc hms
  · exact (h.unbroken hbefore).call h.paced h.sound.follows (undisturbed h.sound hc hno)

theorem run_traced {config : Config α} {calls : List (Call α)}
    (hr : (new config).run calls = .ok σ) : σ.Traced ((new config).marks calls) := by
  have htraced := run_marks (P := Traced) call_traced (new_traced config) hr
  rwa [List.nil_append] at htraced

/-! ## Weights that freeze -/

/-- A call that renews nothing and changes the weights is the first visit of one of the windows that
the limit allows. -/
theorem Unbroken.opens_of_changed (h : σ.Unbroken) (hp : σ.Paced) (hf : σ.Follows) {limit : Nat}
    (hkind : σ.chronicle.config.preconditioner.kind ≠ .constant)
    (hlimit : σ.chronicle.config.preconditioner.maxNonConstWindows = some limit) {c : Call α}
    (hc : σ.Undisturbed c σ')
    (hne : σ'.scheme.preconditioner.weights ≠ σ.scheme.preconditioner.weights) :
    ∃ d, c = .perform d ∧ σ'.chronicle = σ.chronicle.visit d ∧
      σ'.chronicle.Opens σ.chronicle.visits.length ∧ σ.chronicle.opened < max 1 limit := by
  cases hc with
  | refused => exact absurd rfl hne
  | turned hkept => exact absurd (congrArg _ hkept) hne
  | @answered d d' s' hst hfit hs =>
    have hrun := hp.step_run hf hs
    refine ⟨d, rfl, rfl, ?_, ?_⟩
    · by_contra hlater
      -- only the residual is accumulated
      rw [decide_eq_false hlater] at hrun
      obtain ⟨p₁, hp₁, hrun⟩ := bind_ok hrun
      obtain ⟨sums, rfl⟩ := Preconditioner.accumulate_eq hp₁
      exact hne (congrArg Preconditioner.weights (Except.ok.inj hrun)).symm
    · by_contra hmany
      have hfrozen := (h.frozen_iff hkind).2 ⟨limit, hlimit, Nat.le_of_not_lt hmany⟩
      exact hne (Preconditioner.unchanged_of_frozen (Snapshot.staying_operations _ _) hfrozen
        hrun).1

end Session

/-- A limit on adaptive weights. After any operations on blocks that were fitted once, the weights
are frozen if they were taken anew as often as the limit says, but at least once; before that only
an update changes them, and afterwards nothing changes weights, sums or the freezing itself. In a
run that nothing but the start renewed, a call that changes the weights is therefore the first visit
of its window, and fewer windows than the limit, or none, had a visit before. -/
theorem weights_change_bounded {config : Config α} {limit : Nat}
    (hkind : config.preconditioner.kind ≠ .constant)
    (hlimit : config.preconditioner.maxNonConstWindows = some limit) :
    (∀ (sizes : List Nat) (ops : List (Operation α)) (p : Preconditioner α), Staying ops →
      ((Preconditioner.new config.preconditioner).fit sizes).run ops = .ok p →
      (p.frozen = true ↔ max 1 limit ≤ updates ops) ∧
      (∀ op p', op.isFit = false → p.after op = .ok p' → p'.weights ≠ p.weights →
        op.isUpdate = true ∧ updates ops < max 1 limit) ∧
      (max 1 limit ≤ updates ops → ∀ later p', Staying later → p.run later = .ok p' →
        p'.weights = p.weights ∧ p'.sums = p.sums ∧ p'.frozen = true)) ∧
    ∀ (calls : List (Call α)) (σ σ' : Session α) (c : Call α),
      (Session.new config).run calls = .ok σ → RenewedOnce ((Session.new config).marks calls) →
      σ.call c = .ok σ' → .renewed ∉ σ.marks [c] →
      σ'.scheme.preconditioner.weights ≠ σ.scheme.preconditioner.weights →
      ∃ d, c = .perform d ∧ σ'.chronicle = σ.chronicle.visit d ∧
        σ'.chronicle.Opens σ.chronicle.visits.length ∧ σ.chronicle.opened < max 1 limit := by
  constructor
  · intro sizes ops p hops hr
    have hfrozen := Preconditioner.frozen_iff_of_limit hkind hlimit hops hr
    exact ⟨hfrozen,
      fun op p' hop hp hne =>
        Preconditioner.updates_lt_of_changed hkind hlimit hops hr hop hp hne,
      fun hmany later p' hlater hrun =>
        Preconditioner.unchanged_of_frozen hlater (hfrozen.2 hmany) hrun⟩
  · intro calls σ σ' c hr honce hc hno hne
    have htraced := Session.run_traced hr
    have hconfig : σ.chronicle.config = config := Session.run_config hr
    obtain ⟨⟨answer, s'⟩, hcall, hc⟩ := bind_ok hc
    obtain rfl := Except.ok.inj hc
    have hundisturbed := Session.undisturbed htraced.sound hcall
      (Session.marks_singleton hcall ▸ hno)
    exact (htraced.unbroken honce).opens_of_changed htraced.paced htraced.sound.follows
      (hconfig.symm ▸ hkind) (hconfig.symm ▸ hlimit) hundisturbed hne

open Session (single plain run_started fitting_single)

/-- Weights from the residual, with a limit that allows no change. -/
noncomputable def limitedToNone : Config ℝ :=
  { plain with preconditioner := { kind := .residual, maxNonConstWindows := some 0 } }

/-- The weights of the first window, which are taken all the same, stay in the second one. -/
theorem weights_change_bounded_second_window : ∃ σ σ' : Session ℝ,
    (Session.new limitedToNone).run [.start (single 0 0), .perform (single 2 0),
      .converged (single 2 2)] = .ok σ ∧
    σ.call (.perform (single 5 2)) = .ok σ' ∧ σ.chronicle.opened = 1 ∧
    σ'.scheme.preconditioner.weights = σ.scheme.preconditioner.weights := by
  have hfits : ∀ c ∈ ([.perform (single 2 0), .converged (single 2 2)] : List (Call ℝ)),
      c.Fits ((Chronicle.empty limitedToNone).note (.start (single 0 0)) true) :=
    List.forall_mem_cons.2 ⟨fitting_single rfl rfl 2 0, List.forall_mem_singleton.2 trivial⟩
  obtain ⟨s, hrun, hexact, hmarks⟩ := run_started limitedToNone (by decide) hfits
  obtain ⟨s', hcall, -, -, hmark⟩ := hexact.call_fitting rfl (c := .perform (single 5 2))
    (fitting_single rfl rfl 5 2)
  refine ⟨_, _, hrun, Session.call_of_scheme hcall, rfl, ?_⟩
  by_contra hne
  have hlater := (Session.marks_singleton hcall).trans hmark
  have hlimit : limitedToNone.preconditioner.maxNonConstWindows = some 0 := rfl
  obtain ⟨d, -, -, -, hfew⟩ := (weights_change_bounded (by decide) hlimit).2 _ _ _ _ hrun
    (hmarks ▸ renewedOnce_fitting _) (Session.call_of_scheme hcall) (by rw [hlater]; decide) hne
  exact absurd hfew (Nat.lt_irrefl 1)

end Cosimulation.Acceleration

import Cosimulation.Proofs.Aitken.Record
import Cosimulation.Proofs.Exact.Arithmetic

/-!
# Restarts of an Aitken scheme

An Aitken scheme starts over in two ways. If the configured blocks come with another length in all
than before, it forgets everything:

> `perform_resized`: after any run, a call on data of another length in all does what a fresh scheme
> does. If the length in all is the same, the scheme goes on, whichever blocks changed theirs.

At the end of a window it keeps its last factor and only cuts it down to the initial one. In exact
arithmetic that makes the first factor of a window nonzero unless an earlier one was zero, and
`perform_first` says when that is: a correction gives zero exactly if the residual changed at a
right angle to what it was, as it does when it was zero. A factor of zero moves nothing, and no
later window gets away from it (`Record.Stalled`).
-/

namespace Cosimulation.Acceleration.Aitken

/-! ## Data of another length -/

section
variable {α : Type} [Scalar α] {fresh : Aitken α} {o : Observed α} {d : DataMap α}

/-- A call is answered out of the state in which the scheme meets the data. -/
theorem perform_congr {s t : Aitken α} (hids : s.dataIds = t.dataIds)
    (hd : ∀ id ∈ d.keys ++ t.dataIds, d.Paired id)
    (h : s.adapt (residualOf t.dataIds d) = t.adapt (residualOf t.dataIds d)) :
    s.perform d = t.perform d := by
  have hconfigured := (List.forall_mem_append.1 hd).2
  have hminus := Vec.minus_ok_iff.2 ⟨(DataMap.length_stackedOld hconfigured).symm, rfl⟩
  have ht := accept_ok_iff.2 ⟨hd, rfl, rfl⟩
  have hs : s.accept d = .ok (d.stacked t.dataIds, d.stackedOld t.dataIds) := by
    rw [accept, hids]
    exact ht
  rw [residualOf] at h
  simp only [perform, hs, ht, hminus, ok_bind, h]

/-- Where the record begins anew, so does the scheme. -/
theorem Observed.Kept.adapt_eq_fresh (h : Observed.Kept fresh o)
    (hd : ∀ id ∈ fresh.dataIds, d.Paired id) (hnew : (o.record.meet fresh.dataIds d).last? = none) :
    o.scheme.adapt (residualOf fresh.dataIds d) = fresh :=
  (h.adapt hd).eq_fresh hnew

/-- After any run, a call on data of another length in all does what a fresh scheme does, and one on
data of the same length goes on from the last call. -/
theorem perform_resized {config : Config α} {calls : List (Call α)} {reply : Reply (Aitken α) α}
    (hbuild : Scheme.build config = .ok (.aitken fresh))
    (hrun : Observed.run ⟨fresh, {}⟩ calls = .ok o) (hp : o.scheme.perform d = .ok reply)
    (hanswer : reply.answer = .ok ()) :
    (o.record.last? = none ∨ o.record.Resized config.dataIds d → fresh.perform d = .ok reply) ∧
      (¬ o.record.Resized config.dataIds d →
        o.scheme.nextFactor (residualOf config.dataIds d) = .ok reply.scheme.factor ∧
          reply.scheme.iteration = o.scheme.iteration + 1) := by
  have h := Observed.Kept.run hbuild hrun
  have hids : fresh.dataIds = config.dataIds := by rw [(Scheme.build_eq_aitken hbuild).2]
  rw [← hids]
  obtain ⟨hanswered, hnext⟩ := h.perform hp hanswer
  have hconfigured := (List.forall_mem_append.1 hanswered.paired).2
  refine ⟨fun hnew => ?_, fun hsame => ?_⟩
  · have hmeet : (o.record.meet fresh.dataIds d).last? = none := by
      rcases hnew with hnone | hresized
      · rwa [Record.meet_of_not_resized fun ⟨e, he, _⟩ => nomatch hnone.symm.trans he]
      · rw [Record.meet_of_resized hresized]
        rfl
    rw [← hp]
    refine (perform_congr h.dataIds hanswered.paired ?_).symm
    rw [h.adapt_eq_fresh hconfigured hmeet]
    exact ((Observed.Kept.built hbuild).adapt_eq_fresh hconfigured rfl).symm
  · have hmeet := Record.meet_of_not_resized hsame
    have hiteration := hnext.iteration
    rw [hmeet, Record.add, List.length_append, ← h.iteration] at hiteration
    refine ⟨?_, hiteration⟩
    cases hlast : o.record.window.getLast? with
    | none =>
      have hfirst := List.getLast?_eq_none_iff.1 hlast
      have hfactor := hanswered.first (hmeet.symm ▸ hfirst)
      rw [h.nextFactor_of_first hfirst, hfactor, hmeet]
    | some e =>
      rw [h.nextFactor_of_later hlast]
      exact hanswered.later e (hmeet.symm ▸ hlast)

end

open Session (single)

/-- Settings of an Aitken scheme for one block. -/
noncomputable def oneBlock (initial : ℝ) : Config ℝ :=
  { kind := .aitken, initialRelaxation := initial, singularityLimit := 1, dataIds := [0] }

/-- The scheme of these settings. -/
noncomputable def ofOneBlock (initial : ℝ) : Aitken ℝ := ⟨initial, [0], initial, 0, none⟩

theorem build_halving : Scheme.build (oneBlock (1 / 2)) = .ok (.aitken (ofOneBlock (1 / 2))) := by
  refine Scheme.build_aitken (Config.validate_ok_iff.2 ⟨?_, fun hno => SchemeKind.noConfusion hno.1,
    fun hno => List.cons_ne_nil 0 [] hno.2, List.nodup_singleton 0,
    fun hno => SchemeKind.noConfusion hno⟩) rfl
  norm_num [isRelaxationFactor, oneBlock]

theorem perform_resized_doubled : ∃ o reply,
    Scheme.build (oneBlock (1 / 2)) = .ok (.aitken (ofOneBlock (1 / 2))) ∧
    Observed.run ⟨ofOneBlock (1 / 2), {}⟩ [.perform (single 1 0)] = .ok o ∧
    o.scheme.perform (Course.double 3 1) = .ok reply ∧ reply.answer = .ok () ∧
    o.record.Resized [0] (Course.double 3 1) ∧
    (ofOneBlock (1 / 2)).perform (Course.double 3 1) = .ok reply := by
  obtain ⟨o, reply, hrun, hp, hanswer, hresized⟩ : ∃ o reply,
      Observed.run ⟨ofOneBlock (1 / 2), {}⟩ [.perform (single 1 0)] = .ok o ∧
      o.scheme.perform (Course.double 3 1) = .ok reply ∧ reply.answer = .ok () ∧
      o.record.Resized [0] (Course.double 3 1) := ⟨_, _, rfl, rfl, rfl, _, rfl, by decide⟩
  exact ⟨o, reply, build_halving, hrun, hp, hanswer, hresized,
    (perform_resized build_halving hrun hp hanswer).1 (.inr hresized)⟩

/-! ## The first factor of a window -/

section
variable {initial ω ω' : ℝ} {last r : Vec ℝ}

theorem abs_cappedFactor (h : 0 < initial) (ω : ℝ) :
    |cappedFactor initial ω| = min initial |ω| := by
  have hsign : |Scalar.signum ω| = 1 := by
    show |if ω < 0 then (-1 : ℝ) else 1| = 1
    split <;> norm_num
  have hmin : Scalar.smaller initial (Scalar.abs ω) = min initial |ω| := by
    show (if |ω| < initial then |ω| else if initial == initial then initial else |ω|) = _
    by_cases hlt : |ω| < initial
    · rw [if_pos hlt, min_eq_right hlt.le]
    · rw [if_neg hlt, beq_self_eq_true, if_pos rfl, min_eq_left (not_lt.1 hlt)]
  rw [cappedFactor, hmin, abs_mul, hsign, one_mul, abs_of_nonneg (le_min h.le (abs_nonneg ω))]

theorem cappedFactor_eq_zero_iff (h : 0 < initial) : cappedFactor initial ω = 0 ↔ ω = 0 := by
  rw [← abs_eq_zero, abs_cappedFactor h, min_eq_iff]
  constructor
  · rintro (⟨hzero, -⟩ | ⟨hzero, -⟩)
    · exact absurd hzero h.ne'
    · exact abs_eq_zero.1 hzero
  · rintro rfl
    exact .inr ⟨abs_zero, abs_zero.trans_le h.le⟩

/-- A correction gives zero where there was zero, or where the residual changed at a right angle to
what it was. -/
theorem secantFactor_eq_zero_iff (h : secantFactor ω last r = .ok ω') : ω' = 0 ↔ ω = 0 ∨
    vanishing * vanishing < (r.sub last).dot (r.sub last) ∧ last.dot (r.sub last) = 0 := by
  obtain ⟨change, hchange, h⟩ := bind_ok h
  obtain ⟨-, rfl⟩ := Vec.minus_ok_iff.1 hchange
  obtain rfl := Except.ok.inj h
  split
  next hlong =>
    have hpos : (r.sub last).dot (r.sub last) ≠ 0 :=
      (lt_of_le_of_lt (mul_self_nonneg vanishing) hlong).ne'
    rw [div_eq_zero_iff, or_iff_left hpos, mul_eq_zero, neg_eq_zero]
    exact or_congr_right (and_iff_right hlong).symm
  next hshort => exact (or_iff_left fun hno => hshort hno.1).symm

end

/-- Between two calls the residual changed at a right angle to what it was, and by enough to be
noticed. -/
def Stalls (ids : List DataId) (e e' : Step ℝ) : Prop :=
  let change := (residualOf ids e'.given).sub (residualOf ids e.given)
  vanishing * vanishing < change.dot change ∧ (residualOf ids e.given).dot change = 0

namespace Record

/-- Some call was a correction to zero. -/
def Stalled (ids : List DataId) (ρ : Record ℝ) : Prop :=
  ∃ w ∈ ρ.finished ++ [ρ.window], ∃ e e', [e, e'] <:+: w ∧ Stalls ids e e'

variable {ids : List DataId} {ρ : Record ℝ} {initial : ℝ}

theorem not_stalled_empty : ¬ Stalled ids {} := by
  rintro ⟨w, hw, e, e', hpair, -⟩
  obtain rfl := List.mem_singleton.1 hw
  cases List.infix_nil.1 hpair

theorem stalled_turn : ρ.turn.Stalled ids ↔ ρ.Stalled ids := by
  constructor
  · rintro ⟨w, hw, e, e', hpair, hstalls⟩
    rcases List.mem_append.1 hw with hw | hw
    · exact ⟨w, hw, e, e', hpair, hstalls⟩
    · obtain rfl := List.mem_singleton.1 hw
      cases List.infix_nil.1 hpair
  · rintro ⟨w, hw, hstalls⟩
    exact ⟨w, List.mem_append_left _ hw, hstalls⟩

/-- A further call is a correction to zero, or some call before it was one. -/
theorem stalled_add {e' : Step ℝ} : (ρ.add e').Stalled ids ↔
    ρ.Stalled ids ∨ ∃ e ∈ ρ.window.getLast?, Stalls ids e e' := by
  constructor
  · rintro ⟨w, hw, a, b, hpair, hstalls⟩
    rcases List.mem_append.1 hw with hw | hw
    · exact .inl ⟨w, List.mem_append_left _ hw, a, b, hpair, hstalls⟩
    obtain rfl := List.mem_singleton.1 hw
    rcases List.infix_concat_iff.1 hpair with hlast | hearlier
    · -- the pair ends with the further call, so it begins with the one before
      obtain ⟨t, ht, s, hs⟩ := (List.suffix_concat_iff.1 hlast).resolve_left (List.cons_ne_nil _ _)
      have hends : [a] ++ [b] = t ++ [e'] := ht
      obtain ⟨rfl, hlast⟩ := List.append_inj' hends rfl
      obtain rfl := List.singleton_inj.1 hlast
      exact .inr ⟨a, List.getLast?_eq_some_iff.2 ⟨s, hs.symm⟩, hstalls⟩
    · exact .inl ⟨_, List.mem_append_right _ List.mem_cons_self, a, b, hearlier, hstalls⟩
  · rintro (⟨w, hw, a, b, hpair, hstalls⟩ | ⟨e, he, hstalls⟩)
    · rcases List.mem_append.1 hw with hw | hw
      · exact ⟨w, List.mem_append_left _ hw, a, b, hpair, hstalls⟩
      · obtain rfl := List.mem_singleton.1 hw
        exact ⟨_, List.mem_append_right _ List.mem_cons_self, a, b,
          hpair.trans (List.prefix_append _ [e']).isInfix, hstalls⟩
    · obtain ⟨s, hs⟩ := List.getLast?_eq_some_iff.1 he
      refine ⟨_, List.mem_append_right _ List.mem_cons_self, e, e', ⟨s, [], ?_⟩, hstalls⟩
      rw [add, hs, List.append_nil, List.append_assoc]
      rfl

end Record

/-! ### The factor along a run -/

/-- The last factor is zero exactly if some call was a correction to zero. -/
def Record.Faded (fresh : Aitken ℝ) (ρ : Record ℝ) : Prop :=
  ρ.factor fresh.initial = 0 ↔ ρ.Stalled fresh.dataIds

namespace Record.Faded

variable {fresh : Aitken ℝ} {ρ : Record ℝ} {d : DataMap ℝ} {reply : Reply (Aitken ℝ) ℝ}

theorem empty (hpos : 0 < fresh.initial) : Faded fresh {} :=
  iff_of_false hpos.ne' not_stalled_empty

theorem turn (h : ρ.Faded fresh) : ρ.turn.Faded fresh := by
  rw [Faded, factor, last?_turn, stalled_turn]
  exact h

theorem meet (hpos : 0 < fresh.initial) (h : ρ.Faded fresh) :
    (ρ.meet fresh.dataIds d).Faded fresh := by
  by_cases hresized : ρ.Resized fresh.dataIds d
  · rw [meet_of_resized hresized]
    exact empty hpos
  · rwa [meet_of_not_resized hresized]

/-- The first call of a window has a factor of zero exactly if some call before it was a correction
to zero. -/
theorem first (hpos : 0 < fresh.initial) (h : ρ.Faded fresh) (hanswered : Answered fresh ρ d reply)
    (hfirst : (ρ.meet fresh.dataIds d).window = []) :
    reply.scheme.factor = 0 ↔ (ρ.meet fresh.dataIds d).Stalled fresh.dataIds := by
  rw [hanswered.first hfirst, cappedFactor_eq_zero_iff hpos]
  exact h.meet hpos

/-- Every other call may be such a correction itself. -/
theorem later (hpos : 0 < fresh.initial) (h : ρ.Faded fresh) (hanswered : Answered fresh ρ d reply)
    {e : Step ℝ} (he : (ρ.meet fresh.dataIds d).window.getLast? = some e) :
    reply.scheme.factor = 0 ↔ (ρ.meet fresh.dataIds d).Stalled fresh.dataIds ∨
      Stalls fresh.dataIds e ⟨d, reply.data, reply.scheme.factor⟩ := by
  have hlast : (ρ.meet fresh.dataIds d).factor fresh.initial = e.factor := by
    rw [factor, last?_of_window he]
    rfl
  rw [secantFactor_eq_zero_iff (hanswered.later e he), ← hlast]
  exact or_congr_left (h.meet hpos)

theorem add (hpos : 0 < fresh.initial) (h : ρ.Faded fresh) (hanswered : Answered fresh ρ d reply) :
    ((ρ.meet fresh.dataIds d).add ⟨d, reply.data, reply.scheme.factor⟩).Faded fresh := by
  rw [Faded, factor, last?_add, stalled_add]
  show reply.scheme.factor = 0 ↔ _
  cases hlast : (ρ.meet fresh.dataIds d).window.getLast? with
  | none =>
    rw [h.first hpos hanswered (List.getLast?_eq_none_iff.1 hlast)]
    refine (or_iff_left ?_).symm
    rintro ⟨e, he, -⟩
    cases he
  | some e =>
    rw [h.later hpos hanswered hlast]
    refine or_congr_right ⟨fun hs => ⟨e, rfl, hs⟩, ?_⟩
    rintro ⟨e', he, hs⟩
    obtain rfl := Option.some.inj he
    exact hs

end Record.Faded

theorem Observed.run_faded {config : Config ℝ} {fresh : Aitken ℝ} {calls : List (Call ℝ)}
    {o : Observed ℝ} (hbuild : Scheme.build config = .ok (.aitken fresh))
    (hpos : 0 < fresh.initial) (hrun : Observed.run ⟨fresh, {}⟩ calls = .ok o) :
    o.record.Faded fresh := by
  refine (run_invariant (P := fun o => o.Kept fresh ∧ o.record.Faded fresh) ?_
    ⟨.built hbuild, .empty hpos⟩ hrun).2
  rintro o o' c ⟨hkept, hfaded⟩ hc
  refine ⟨hkept.call hc, ?_⟩
  rcases call_cases hc with rfl | ⟨d, reply, hp, hanswer, rfl⟩ | rfl | rfl
  · exact hfaded
  · rw [hkept.dataIds]
    exact hfaded.add hpos (hkept.perform hp hanswer).1
  · exact hfaded.turn
  · exact .empty hpos

/-- Relaxation moves nothing if the factor or the residual is zero. -/
theorem axpy_eq_right_iff {a : ℝ} : ∀ {v w : Vec ℝ}, v.length = w.length →
    (Vec.axpy a v w = w ↔ a = 0 ∨ ∀ x ∈ v, x = 0) := by
  intro v
  induction v with
  | nil =>
    intro w h
    obtain rfl := List.length_eq_zero_iff.1 h.symm
    exact iff_of_true rfl (.inr fun _ hx => absurd hx List.not_mem_nil)
  | cons x v ih =>
    intro w h
    cases w with
    | nil => cases h
    | cons y w =>
      show (a * x + y) :: Vec.axpy a v w = y :: w ↔ _
      rw [List.cons_eq_cons, ih (Nat.succ.inj h), add_eq_right, mul_eq_zero, List.forall_mem_cons]
      exact or_and_left.symm

/-- After any run, the factor of the first call of a window is at most the initial one, and it is
zero exactly if some call since the scheme last started afresh was a correction to zero. Only then,
or if its residual is zero, does the call leave the iterate where it was. -/
theorem perform_first {config : Config ℝ} {fresh : Aitken ℝ} {calls : List (Call ℝ)}
    {o : Observed ℝ} {d : DataMap ℝ} {reply : Reply (Aitken ℝ) ℝ}
    (hbuild : Scheme.build config = .ok (.aitken fresh))
    (hrun : Observed.run ⟨fresh, {}⟩ calls = .ok o) (hp : o.scheme.perform d = .ok reply)
    (hanswer : reply.answer = .ok ()) (hfirst : (o.record.meet config.dataIds d).window = []) :
    |reply.scheme.factor| ≤ config.initialRelaxation ∧
      (reply.scheme.factor = 0 ↔ (o.record.meet config.dataIds d).Stalled config.dataIds) ∧
      (reply.data.stacked config.dataIds = d.stackedOld config.dataIds ↔
        (o.record.meet config.dataIds d).Stalled config.dataIds ∨
          ∀ x ∈ residualOf config.dataIds d, x = 0) := by
  obtain ⟨hvalid, hfresh⟩ := Scheme.build_eq_aitken hbuild
  have hids : fresh.dataIds = config.dataIds := by rw [hfresh]
  have hinitial : fresh.initial = config.initialRelaxation := by rw [hfresh]
  have hpos : 0 < fresh.initial := by
    have hfactor := (Config.validate_ok_iff.1 hvalid).1
    rw [isRelaxationFactor, Bool.and_eq_true, decide_eq_true_iff] at hfactor
    exact hinitial ▸ hfactor.1
  rw [← hids] at hfirst ⊢
  rw [← hinitial]
  obtain ⟨hanswered, -⟩ := (Observed.Kept.run hbuild hrun).perform hp hanswer
  have hzero := (Observed.run_faded hbuild hpos hrun).first hpos hanswered hfirst
  refine ⟨?_, hzero, ?_⟩
  · rw [hanswered.first hfirst, abs_cappedFactor hpos]
    exact min_le_left _ _
  · rw [← hzero, hanswered.relaxed.stacked]
    have hconfigured := hanswered.relaxed.paired
    exact axpy_eq_right_iff
      ((length_residualOf hconfigured).trans (DataMap.length_stackedOld hconfigured).symm)

/-- A window of two calls with given values, both with one as the previous value. -/
noncomputable def twice (x x' : ℝ) : List (Call ℝ) :=
  [.perform (single x 1), .perform (single x' 1), .converged .empty]

theorem run_twice (x x' : ℝ) : ∃ o, Observed.run ⟨ofOneBlock (1 / 2), {}⟩ (twice x x') = .ok o ∧
    (∀ y, (o.record.meet [0] (single y 1)) = o.record ∧
      ∃ reply, o.scheme.perform (single y 1) = .ok reply ∧ reply.answer = .ok ()) ∧
    o.record.window = [] ∧ (o.record.Stalled [0] ↔
      vanishing * vanishing < (x' - x) * (x' - x) ∧ (x - 1) * (x' - x) = 0) := by
  obtain ⟨o, e, e', hrun, hrecord, he, he', hperform⟩ : ∃ o e e',
      Observed.run ⟨ofOneBlock (1 / 2), {}⟩ (twice x x') = .ok o ∧
      o.record = ((Record.add {} e).add e').turn ∧ e.given = single x 1 ∧ e'.given = single x' 1 ∧
      ∀ y, ∃ reply, o.scheme.perform (single y 1) = .ok reply ∧ reply.answer = .ok () :=
    ⟨_, _, _, rfl, rfl, rfl, rfl, fun _ => ⟨_, rfl, rfl⟩⟩
  refine ⟨o, hrun, fun y => ⟨Record.meet_of_not_resized ?_, hperform y⟩, hrecord ▸ rfl, ?_⟩
  · rintro ⟨last, hlast, hne⟩
    rw [hrecord, Record.last?_turn, Record.last?_add] at hlast
    obtain rfl := Option.some.inj hlast
    exact hne (he' ▸ rfl)
  · have hresidual (y : ℝ) : residualOf [0] (single y 1) = [y - 1] := rfl
    have hstalls : Stalls [0] e e' ↔
        vanishing * vanishing < (x' - x) * (x' - x) ∧ (x - 1) * (x' - x) = 0 := by
      simp [Stalls, he, he', hresidual, Vec.sub, Vec.dot, Vec.sum]
    rw [hrecord, Record.stalled_turn, Record.stalled_add, Record.stalled_add, ← hstalls]
    simp [Record.add, Record.not_stalled_empty]

/-- A window that starts with a factor other than zero. -/
theorem perform_first_twice : ∃ o reply,
    Scheme.build (oneBlock (1 / 2)) = .ok (.aitken (ofOneBlock (1 / 2))) ∧
    Observed.run ⟨ofOneBlock (1 / 2), {}⟩ (twice 2 4) = .ok o ∧
    o.scheme.perform (single 3 1) = .ok reply ∧ reply.answer = .ok () ∧
    (o.record.meet [0] (single 3 1)).window = [] ∧ |reply.scheme.factor| ≤ 1 / 2 ∧
    reply.scheme.factor ≠ 0 ∧ reply.data.stacked [0] ≠ [1] := by
  obtain ⟨o, hrun, hnext, hwindow, hstalled⟩ := run_twice 2 4
  obtain ⟨hmeet, reply, hp, hanswer⟩ := hnext 3
  have hfirst : (o.record.meet [0] (single 3 1)).window = [] := hmeet.symm ▸ hwindow
  obtain ⟨hbound, hzero, hmoved⟩ := perform_first build_halving hrun hp hanswer hfirst
  have hgoes : ¬ (o.record.meet [0] (single 3 1)).Stalled [0] := by
    rw [hmeet, hstalled]
    norm_num
  refine ⟨o, reply, build_halving, hrun, hp, hanswer, hfirst, hbound, mt hzero.1 hgoes,
    mt hmoved.1 (not_or.2 ⟨hgoes, fun hnone => ?_⟩)⟩
  have hzero : (3 : ℝ) - 1 = 0 := hnone (3 - 1) List.mem_cons_self
  norm_num at hzero

/-- After a call whose residual was zero, the first call of the next window moves nothing. -/
theorem perform_first_stalled : ∃ o reply,
    Scheme.build (oneBlock (1 / 2)) = .ok (.aitken (ofOneBlock (1 / 2))) ∧
    Observed.run ⟨ofOneBlock (1 / 2), {}⟩
      [.perform (single 1 1), .perform (single 2 1), .converged .empty] = .ok o ∧
    (o.record.meet [0] (single 3 1)).window = [] ∧ o.scheme.perform (single 3 1) = .ok reply ∧
    reply.answer = .ok () ∧ reply.scheme.factor = 0 ∧ residualOf [0] (single 3 1) = [3 - 1] ∧
    reply.data.stacked [0] = [1] := by
  obtain ⟨o, hrun, hnext, hwindow, hstalled⟩ := run_twice 1 2
  obtain ⟨hmeet, reply, hp, hanswer⟩ := hnext 3
  have hfirst : (o.record.meet [0] (single 3 1)).window = [] := hmeet.symm ▸ hwindow
  have hpos : 0 < (ofOneBlock (1 / 2)).initial := one_half_pos
  obtain ⟨hanswered, -⟩ := (Observed.Kept.run build_halving hrun).perform hp hanswer
  have hzero : reply.scheme.factor = 0 := by
    refine ((Observed.run_faded build_halving hpos hrun).first hpos hanswered hfirst).2 ?_
    show (o.record.meet [0] (single 3 1)).Stalled [0]
    rw [hmeet, hstalled, vanishing]
    norm_num
  have hlength : (residualOf [0] (single 3 1)).length = ((single 3 1).stackedOld [0]).length := rfl
  have hdata : reply.data.stacked [0] = (single 3 1).stackedOld [0] :=
    hanswered.relaxed.stacked.trans ((axpy_eq_right_iff hlength).2 (.inl hzero))
  exact ⟨o, reply, build_halving, hrun, hfirst, hp, hanswer, hzero, rfl, hdata⟩

end Cosimulation.Acceleration.Aitken

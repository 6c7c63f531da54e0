import Cosimulation.Proofs.Scheme.Footprint

/-!
# What a refused call costs

A call that is refused should leave no trace, so that the caller can mend the data and try again. It
does leave the data alone, and mostly the scheme as well:

> `Course.run_refused`: after any course of calls, a refused call leaves the data and the scheme as
> they were, unless the data have all blocks of a quasi-Newton scheme and one of them has values of
> another length. Then the scheme is left like one that was just started on data of these lengths.

The exception is a matter of order. A quasi-Newton scheme looks for a remeshing once it knows that
no block is missing, and drops its history, before it compares the two iterates of each block. So a
block that has got new values but still its old previous iterate is refused at the price of all
history, although no such remeshing took place. Aitken relaxation, which also starts afresh on new
lengths, compares the iterates first and pays nothing.
-/

namespace Cosimulation.Acceleration

variable {α : Type} [Scalar α]

namespace QuasiNewton

variable {s : QuasiNewton α} {d : DataMap α}

/-- Data with all blocks are refused for the iterates of one of them. -/
theorem accept_error {fault : Fault α} (hst : s.started = true)
    (hall : ∀ id ∈ s.trackedIds, d.contains id) (h : (s.accept d).1 = .error fault) :
    ∃ id b, d.find? id = some b ∧ b.checkSizes id = .error fault := by
  have hreq : d.requireAll s.trackedIds = .ok () := DataMap.requireAll_ok_iff.2 hall
  have htracked : (s.adapt d).trackedIds = s.trackedIds := (adapt_settings s d).2
  rw [← htracked] at hall
  obtain ⟨hprimary, hsecondary⟩ := List.forall_mem_append.1 hall
  rw [accept, hst, hreq] at h
  dsimp only [Bool.not_true, Bool.false_eq_true, if_false] at h
  -- the secondary blocks are checked first, the primary ones when they are stacked
  cases hsizes : d.checkSizes (s.adapt d).secondaryIds with
  | error fault' =>
    rw [hsizes] at h
    have hfault : Except.error fault' = (Except.error fault : Except (Fault α) Unit) :=
      congrArg Except.error (Except.error.inj h)
    exact DataMap.checkSizes_error hsecondary (hsizes.trans hfault)
  | ok _ =>
    rw [hsizes] at h
    have hstack : d.stack (s.adapt d).config.dataIds = .error fault := h
    have hcheck := d.checkSizes_eq_map_stack (s.adapt d).config.dataIds
    rw [hstack] at hcheck
    exact DataMap.checkSizes_error hprimary hcheck

/-- A refused call does no more than look at the data. -/
theorem accept_of_refused {fault : Fault α} {reply : Reply (QuasiNewton α) α}
    (h : s.perform d = .ok reply) (hrefused : reply.answer = .error fault) :
    s.accept d = (.error fault, reply.scheme) ∧ reply.data = d := by
  unfold QuasiNewton.perform at h
  obtain ⟨answer, s', ha⟩ : ∃ answer s', s.accept d = (answer, s') := ⟨_, _, rfl⟩
  rw [ha] at h
  cases answer with
  | error fault' =>
    obtain rfl := Except.ok.inj h
    obtain rfl := Except.error.inj hrefused
    exact ⟨ha, rfl⟩
  | ok pair =>
    obtain ⟨⟨s'', d'⟩, -, h⟩ := bind_ok h
    obtain rfl := Except.ok.inj h
    cases hrefused

namespace Begun

variable {config : Config α} {first : DataMap α}

omit [Scalar α] in
/-- Lengths are recorded of the tracked blocks. -/
theorem exists_lookup_iff (h : Begun config first s) {id : DataId} :
    (∃ n, s.sizes.lookup id = some n) ↔ id ∈ s.trackedIds := by
  obtain ⟨d₀, hall, hsizes⟩ := h.sizes
  rw [hsizes]
  refine ⟨fun ⟨n, hn⟩ => mem_of_lookup_measured hn, fun hid => ?_⟩
  obtain ⟨b, hb⟩ := Option.isSome_iff_exists.1 (hall id hid)
  exact ⟨b.size, by rw [lookup_measured hall hid, hb, Option.map_some]⟩

omit [Scalar α] in
/-- Complete data are taken for remeshed exactly where a block has another length than recorded. -/
theorem isRemeshed_iff (h : Begun config first s) (hall : ∀ id ∈ s.trackedIds, d.contains id) :
    s.isRemeshed d = true ↔
      ∃ id n, s.sizes.lookup id = some n ∧ (d.find? id).map Block.size ≠ some n := by
  refine ⟨fun hr => ?_, fun ⟨id, n, hn, hd⟩ => h.isRemeshed hall hn hd⟩
  obtain ⟨id, -, hne⟩ := List.any_eq_true.1 hr
  split at hne
  next b n hb hn =>
    refine ⟨id, n, hn, fun hsize => bne_iff_ne.1 hne ?_⟩
    rw [hb, Option.map_some] at hsize
    exact (Option.some.inj hsize).symm
  next => cases hne

/-- To drop the history for the lengths of some data is to start on any data of these lengths. -/
theorem record_alike (h : Begun config first s) {e : DataMap α} (hkeys : e.keys = first.keys)
    (hsizes : ∀ id ∈ s.trackedIds, (e.find? id).map Block.size = (d.find? id).map Block.size) :
    Alike (fresh config e) (s.reset.record d) := by
  have hmeasured : measured d s.trackedIds = measured e s.trackedIds := by
    refine List.filterMap_congr fun id hid => ?_
    have hsize := congrArg (Option.map (Prod.mk id)) (hsizes id hid)
    rw [Option.map_map, Option.map_map] at hsize
    exact hsize.symm
  -- of the data nothing but the lengths is recorded
  have hrecord : ∀ c : DataMap α, s.reset.record c = { s.reset with
      sizes := measured c s.trackedIds
      factorization := .empty (joint (primarySizes { s with sizes := measured c s.trackedIds }))
      preconditioner := s.reset.preconditioner.fit
        (primarySizes { s with sizes := measured c s.trackedIds }) } := fun _ => rfl
  rw [hrecord, hmeasured, ← hrecord, h.reset_record_eq hkeys]
  exact alike_of_first _ rfl

omit [Scalar α] in
/-- All configured blocks are in data with the blocks of the first. -/
theorem present_of_keys (h : Begun config first s) {e : DataMap α} (hkeys : e.keys = first.keys) :
    ∀ id ∈ config.dataIds, e.contains id := fun id hid =>
  h.tracked_present hkeys id (List.mem_append_left _ (h.settings ▸ hid))

end Begun

end QuasiNewton

namespace Course

/-- A scheme was started, and the data have all blocks of which it recorded a length, one of them
with another length. -/
structure Remeshed (γ : Course α) (d : DataMap α) : Prop where
  started : γ.origin.isSome
  complete : ∀ id n, γ.scheme.recorded id = some n → d.contains id
  moved : ∃ id n, γ.scheme.recorded id = some n ∧ (d.find? id).map Block.size ≠ some n

omit [Scalar α] in
/-- Only quasi-Newton schemes record lengths. -/
theorem not_remeshed {γ : Course α} {d : DataMap α} (h : ∀ id, γ.scheme.recorded id = none) :
    ¬ γ.Remeshed d := by
  intro hremeshed
  obtain ⟨id, n, hn, -⟩ := hremeshed.moved
  rw [h id] at hn
  cases hn

/-- A scheme that has begun refuses some data as it is, or drops its history for their lengths. -/
theorem remeshed_or_same {config : Config α} {first d : DataMap α} {s s' : QuasiNewton α}
    {fault : Fault α} (h : s.Begun config first) (haccept : s.accept d = (.error fault, s')) :
    (s' = s ∧ ¬ Remeshed ⟨.iqnIls s, some first⟩ d) ∨
      (s' = s.reset.record d ∧ Remeshed ⟨.iqnIls s, some first⟩ d ∧
        ∃ id b, d.find? id = some b ∧ b.checkSizes id = .error fault) := by
  rcases QuasiNewton.accept_cases haccept with ⟨hsame, -, hnot⟩ | ⟨hadapt, ⟨hst, hall⟩, -⟩
  · -- a block is missing, which is found before the lengths are compared
    refine .inl ⟨hsame, fun hremeshed => hnot ⟨h.started, fun id hid => ?_⟩⟩
    obtain ⟨n, hn⟩ := h.exists_lookup_iff.2 hid
    exact hremeshed.complete id n hn
  cases hr : s.isRemeshed d with
  | false =>
    refine .inl ⟨hadapt.trans (if_neg (Bool.eq_false_iff.1 hr)), fun hremeshed => ?_⟩
    rw [(h.isRemeshed_iff hall).2 hremeshed.moved] at hr
    cases hr
  | true =>
    refine .inr ⟨hadapt.trans (if_pos hr), ⟨rfl, fun id n hn => ?_, (h.isRemeshed_iff hall).1 hr⟩,
      QuasiNewton.accept_error hst hall (congrArg Prod.fst haccept)⟩
    exact hall id (h.exists_lookup_iff.1 ⟨n, hn⟩)

/-- After any course of calls, a refused call leaves the data alone, and the scheme too unless a
block has another length. Then the call was refused for the iterates of a block, and the scheme is
left like one that was just built and started on data with these lengths. -/
theorem run_refused {config : Config α} {built : Scheme α} {calls : List (Call α)} {γ : Course α}
    {d : DataMap α} {reply : Reply (Scheme α) α} {fault : Fault α}
    (hbuild : Scheme.build config = .ok built) (hrun : run ⟨built, none⟩ calls = .ok γ)
    (hperform : γ.scheme.perform d = .ok reply) (hrefused : reply.answer = .error fault) :
    reply.data = d ∧ (¬ γ.Remeshed d → reply.scheme = γ.scheme) ∧
      (γ.Remeshed d → (∃ id b, d.find? id = some b ∧ b.checkSizes id = .error fault) ∧
        ∀ first e, γ.origin = some first → e.keys = first.keys →
          (∀ id n, γ.scheme.recorded id = some n →
            (e.find? id).map Block.size = (d.find? id).map Block.size) →
          ∃ fresh, built.start e = .ok fresh ∧ reply.scheme.visible = fresh.visible ∧
            ∀ later, reply.scheme.trace later = fresh.trace later) := by
  have hsettled := (Settled.build hbuild).run hrun
  cases hsettled with
  | constant s hbuilt _ =>
    obtain ⟨reply, hstep, rfl⟩ := map_eq_ok.1 hperform
    rcases Constant.perform_footprint hstep with ⟨fault', rfl⟩ | ⟨hok, -⟩
    · exact ⟨rfl, fun _ => rfl, fun h => absurd h (not_remeshed fun _ => rfl)⟩
    · cases hok.symm.trans hrefused
  | aitken s hbuilt _ =>
    obtain ⟨reply, hstep, rfl⟩ := map_eq_ok.1 hperform
    rcases Aitken.perform_footprint hstep with ⟨fault', rfl⟩ | ⟨hok, -⟩
    · exact ⟨rfl, fun _ => rfl, fun h => absurd h (not_remeshed fun _ => rfl)⟩
    · cases hok.symm.trans hrefused
  | @iqnIls s origin hbuilt _ hidle hbegun =>
    obtain ⟨reply, hstep, rfl⟩ := map_eq_ok.1 hperform
    obtain ⟨haccept, hdata⟩ := QuasiNewton.accept_of_refused hstep hrefused
    cases origin with
    | none =>
      -- a scheme that was never started refuses everything
      rw [QuasiNewton.accept, hidle rfl] at haccept
      have hsame : s = reply.scheme := congrArg Prod.snd haccept
      exact ⟨hdata, fun _ => congrArg Scheme.iqnIls hsame.symm,
        fun h => absurd h.started Bool.false_ne_true⟩
    | some first =>
      have hkept := hbegun first rfl
      rcases remeshed_or_same hkept haccept with ⟨hsame, hnot⟩ | ⟨hdropped, hremeshed, hmismatch⟩
      · exact ⟨hdata, fun _ => congrArg Scheme.iqnIls hsame, fun h => absurd h hnot⟩
      refine ⟨hdata, fun hnot => absurd hremeshed hnot, fun _ => ⟨hmismatch, ?_⟩⟩
      intro first' e horigin hkeys hsizes
      obtain rfl := Option.some.inj horigin
      have halike : Scheme.Alike (.iqnIls (.fresh s.config e)) (.iqnIls reply.scheme) := by
        refine .iqnIls (hdropped ▸ hkept.record_alike hkeys fun id hid => ?_)
        obtain ⟨n, hn⟩ := hkept.exists_lookup_iff.2 hid
        exact hsizes id n hn
      refine ⟨.iqnIls (.fresh s.config e), ?_, halike.visible.symm, fun _ => halike.trace.symm⟩
      rw [hbuilt, Scheme.start, QuasiNewton.start_new (hkept.present_of_keys hkeys)]
      rfl

open Session (single plain)

/-- One block, whose values got a second entry and whose previous iterate did not. -/
def stretched : DataMap ℝ := .ofList [(0, ⟨[4, 4], [1], 1⟩)]

/-- After a call that was answered, a call without the block costs nothing, and one on values of
another length costs the history. -/
theorem run_refused_stretched : ∃ (built fresh : Scheme ℝ) (γ : Course ℝ)
    (missing mismatch : Reply (Scheme ℝ) ℝ), Scheme.build plain = .ok built ∧
      run ⟨built, none⟩ [.start (single 1 0), .perform (single 1 0)] = .ok γ ∧
      γ.scheme.perform .empty = .ok missing ∧ missing.answer = .error (.missingData 0) ∧
      missing.scheme = γ.scheme ∧
      γ.scheme.perform stretched = .ok mismatch ∧
      mismatch.answer = .error (.dataSizeMismatch 0 2 1) ∧
      mismatch.scheme ≠ γ.scheme ∧ built.start stretched = .ok fresh ∧
      ∀ later, mismatch.scheme.trace later = fresh.trace later := by
  have hbuild := build_plain
  obtain ⟨γ, missing, mismatch, hrun, horigin, hrecorded, hmissing, hno, hmismatch, hlengths,
    hchanged⟩ : ∃ (γ : Course ℝ) (missing mismatch : Reply (Scheme ℝ) ℝ),
      run ⟨.iqnIls (.new plain), none⟩ [.start (single 1 0), .perform (single 1 0)] = .ok γ ∧
      γ.origin = some (single 1 0) ∧ (∀ id, γ.scheme.recorded id = [(0, 1)].lookup id) ∧
      γ.scheme.perform .empty = .ok missing ∧ missing.answer = .error (.missingData 0) ∧
      γ.scheme.perform stretched = .ok mismatch ∧
      mismatch.answer = .error (.dataSizeMismatch 0 2 1) ∧ mismatch.scheme.recorded 0 = some 2 :=
    ⟨_, _, _, rfl, rfl, fun _ => rfl, rfl, rfl, rfl, rfl, rfl⟩
  have hlookup : ∀ id n, γ.scheme.recorded id = some n → id = 0 := by
    intro id n hn
    rw [hrecorded, OrderedMap.lookup_cons_eq_ite] at hn
    split at hn
    next h0 => exact h0
    next => cases hn
  obtain ⟨-, hsame, -⟩ := run_refused hbuild hrun hmissing hno
  obtain ⟨-, -, hcost⟩ := run_refused hbuild hrun hmismatch hlengths
  have hremeshed : γ.Remeshed stretched :=
    ⟨by rw [horigin]; rfl, fun id n hn => hlookup id n hn ▸ rfl, 0, 1, hrecorded 0, nofun⟩
  obtain ⟨fresh, hfresh, -, htrace⟩ := (hcost hremeshed).2 _ stretched horigin rfl fun _ _ _ => rfl
  refine ⟨_, fresh, γ, missing, mismatch, hbuild, hrun, hmissing, hno, hsame fun h => ?_, hmismatch,
    hlengths, fun h => ?_, hfresh, htrace⟩
  · exact Bool.false_ne_true (h.complete 0 1 (hrecorded 0))
  · rw [h, hrecorded] at hchanged
    cases hchanged

end Course

end Cosimulation.Acceleration

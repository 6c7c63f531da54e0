import Cosimulation.Proofs.Data.Footprint
import Cosimulation.Proofs.Scheme.Renewal

/-!
# What a call may touch

The data map is shared with the rest of a coupled program, and a scheme that gave up half-way
through a call would leave it half relaxed. It does not: whatever can be wrong with the data is
found before the first block is changed.

> `Course.run_footprint`: after any course of calls, a call that fails leaves the data as they
> were, and one that succeeds leaves the blocks it works on with equal iterates, of the lengths they
> had, and all other blocks alone.

The relaxation schemes work on every block of the map. A quasi-Newton scheme works on the configured
blocks and on those that were the others when it was started, even if the map has got more blocks
since (`Course.worksOn`); it keeps these IDs along all calls (`QuasiNewton.Begun`). Its answer to a
call is made of steps that all stay `Within` these blocks, and the last step stores them.
-/

namespace Cosimulation.Acceleration

variable {α : Type} [Scalar α]

/-! ## Relaxation -/

theorem relax_store_stored {d relaxed stored : DataMap α} {ids : List DataId} {ω : α}
    (hr : d.relax ids ω = .ok relaxed) (hs : relaxed.store ids = .ok stored) :
    d.Stored ids stored :=
  (DataMap.modifyAll_within (Block.shapely_relax ω) (List.Subset.refl ids) hr).stored hs

theorem Constant.perform_footprint {s : Constant α} {d : DataMap α}
    {reply : Reply (Constant α) α} (h : s.perform d = .ok reply) :
    (∃ fault, reply = ⟨.error fault, s, d⟩) ∨
      reply.answer = .ok () ∧ DataMap.Stored d.keys d reply.data := by
  unfold Constant.perform at h
  split at h
  next fault _ => exact .inl ⟨fault, (Except.ok.inj h).symm⟩
  next =>
    obtain ⟨relaxed, hr, h⟩ := bind_ok h
    obtain ⟨stored, hs, h⟩ := bind_ok h
    obtain rfl := Except.ok.inj h
    exact .inr ⟨rfl, relax_store_stored hr hs⟩

theorem Aitken.perform_footprint {s : Aitken α} {d : DataMap α}
    {reply : Reply (Aitken α) α} (h : s.perform d = .ok reply) :
    (∃ fault, reply = ⟨.error fault, s, d⟩) ∨
      reply.answer = .ok () ∧ DataMap.Stored d.keys d reply.data := by
  unfold Aitken.perform at h
  split at h
  next fault _ => exact .inl ⟨fault, (Except.ok.inj h).symm⟩
  next =>
    obtain ⟨residual, -, h⟩ := bind_ok h
    obtain ⟨factor, -, h⟩ := bind_ok h
    obtain ⟨relaxed, hr, h⟩ := bind_ok h
    obtain ⟨stored, hs, h⟩ := bind_ok h
    obtain rfl := Except.ok.inj h
    exact .inr ⟨rfl, relax_store_stored hr hs⟩

/-! ## Quasi-Newton -/

namespace QuasiNewton

variable {s : QuasiNewton α}

theorem moveSecondary_within {coefficients : List α} {ids : List DataId} :
    ∀ {js : List DataId} {d d' : DataMap α}, js ⊆ ids →
      s.moveSecondary coefficients d js = .ok d' → DataMap.Within ids d d' := by
  intro js
  induction js with
  | nil =>
    intro d d' _ h
    obtain rfl := Except.ok.inj h
    exact .refl ids d
  | cons id js ih =>
    intro d d' hjs h
    obtain ⟨d₁, h₁, h⟩ := bind_ok h
    refine .trans (DataMap.modify_within ?_ (hjs List.mem_cons_self) h₁)
      (ih (fun j hj => hjs (List.mem_cons_of_mem _ hj)) h)
    intro b b' hb
    obtain ⟨values, hv, hb⟩ := bind_ok hb
    obtain rfl := Except.ok.inj hb
    show (b.dimension, values.length, b.old.length) = b.shape
    rw [Vec.length_plusCombination hv]
    rfl

theorem advance_within {d d' : DataMap α} {iterate : Vec α} {coefficients : Option (List α)}
    (h : s.advance d iterate coefficients = .ok d') : DataMap.Within s.trackedIds d d' := by
  cases coefficients with
  | none =>
    exact DataMap.modifyAll_within (Block.shapely_relax _) (List.Subset.refl _) h
  | some a =>
    obtain ⟨update, -, h⟩ := bind_ok h
    obtain ⟨moved, hm, h⟩ := bind_ok h
    exact (DataMap.unstack_within (List.subset_append_left _ _) hm).trans
      (moveSecondary_within (List.subset_append_right _ _) h)

theorem respond_stored {d d' : DataMap α} {now : Snapshot α} {coefficients : Option (List α)}
    (h : s.respond d now = .ok (coefficients, d')) : DataMap.Stored s.trackedIds d d' := by
  obtain ⟨moved, -, hm, hs⟩ := respond_eq h
  exact (advance_within hm).stored hs

theorem perform_footprint {d : DataMap α} {reply : Reply (QuasiNewton α) α}
    (h : s.perform d = .ok reply) :
    (∃ fault, reply.answer = .error fault ∧ reply.data = d) ∨
      reply.answer = .ok () ∧ s.started = true ∧ DataMap.Stored s.trackedIds d reply.data := by
  unfold QuasiNewton.perform at h
  obtain ⟨answer, s₁, ha⟩ : ∃ answer s₁, s.accept d = (answer, s₁) := ⟨_, _, rfl⟩
  rw [ha] at h
  cases answer with
  | error fault =>
    obtain rfl := Except.ok.inj h
    exact .inl ⟨fault, rfl, rfl⟩
  | ok pair =>
    obtain ⟨⟨s₂, d'⟩, hs, h⟩ := bind_ok h
    obtain rfl := Except.ok.inj h
    obtain ⟨s₃, coefficients, -, hl, hr, -⟩ := step_eq hs
    rcases accept_cases ha with ⟨-, ⟨fault, hfault⟩, -⟩ | ⟨rfl, ⟨hst, -⟩, -⟩
    · cases hfault
    · have htracked : s₃.trackedIds = s.trackedIds :=
        (learn_settings hl).2.trans (adapt_settings s d).2
      exact .inr ⟨rfl, hst, htracked ▸ respond_stored hr⟩

end QuasiNewton

/-! ## Any scheme -/

/-- A scheme is of the kind that its settings name. -/
theorem Scheme.kind_of_assemble {config : Config α} {s : Scheme α} (h : assemble config = .ok s) :
    config.kind = s.kind := by
  unfold assemble at h
  split at h
  next hkind =>
    obtain ⟨s, -, rfl⟩ := map_eq_ok.1 h
    exact hkind
  next hkind =>
    obtain ⟨s, -, rfl⟩ := map_eq_ok.1 h
    exact hkind
  next hkind =>
    obtain rfl := Except.ok.inj h
    exact hkind

theorem Scheme.config_of_assemble {config c : Config α}
    (h : assemble config = .ok (.iqnIls (.new c))) : c = config := by
  have hkind : config.kind = .iqnIls := kind_of_assemble h
  rw [assemble, hkind] at h
  exact congrArg QuasiNewton.config (Scheme.iqnIls.inj (Except.ok.inj h)).symm

namespace Course

/-- The blocks that a call with some data works on; a quasi-Newton scheme that was never started
works on none. -/
def worksOn (config : Config α) (γ : Course α) (d : DataMap α) : Option (List DataId) :=
  match config.kind with
  | .iqnIls => γ.origin.map fun first => config.dataIds ++ QuasiNewton.others config first
  | _ => some d.keys

/-- After any course of calls, a call that fails leaves the data as they were, and with them the
scheme if it relaxes only; a call that succeeds stores the blocks it works on. -/
theorem run_footprint {config : Config α} {built : Scheme α} {calls : List (Call α)}
    {γ : Course α} {d : DataMap α} {reply : Reply (Scheme α) α}
    (hbuild : Scheme.assemble config = .ok built) (hrun : run ⟨built, none⟩ calls = .ok γ)
    (hp : γ.scheme.perform d = .ok reply) :
    (∃ fault, reply.answer = .error fault ∧ reply.data = d ∧
        (config.kind ≠ .iqnIls → reply.scheme = γ.scheme)) ∨
      reply.answer = .ok () ∧ ∃ ids, worksOn config γ d = some ids ∧ d.Stored ids reply.data := by
  have hkind := Scheme.kind_of_assemble hbuild
  have hsettled := (Settled.assemble hbuild).run hrun
  cases hsettled with
  | constant s hbuilt _ =>
    rw [hbuilt] at hkind
    obtain ⟨reply, hstep, rfl⟩ := map_eq_ok.1 hp
    rcases Constant.perform_footprint hstep with ⟨fault, rfl⟩ | ⟨hok, hstored⟩
    · exact .inl ⟨fault, rfl, rfl, fun _ => rfl⟩
    · exact .inr ⟨hok, d.keys, by rw [worksOn, hkind]; rfl, hstored⟩
  | aitken s hbuilt _ =>
    rw [hbuilt] at hkind
    obtain ⟨reply, hstep, rfl⟩ := map_eq_ok.1 hp
    rcases Aitken.perform_footprint hstep with ⟨fault, rfl⟩ | ⟨hok, hstored⟩
    · exact .inl ⟨fault, rfl, rfl, fun _ => rfl⟩
    · exact .inr ⟨hok, d.keys, by rw [worksOn, hkind]; rfl, hstored⟩
  | iqnIls s hbuilt hweighting hidle hbegun =>
    rw [hbuilt] at hkind hbuild
    obtain rfl := Scheme.config_of_assemble hbuild
    obtain ⟨reply, hstep, rfl⟩ := map_eq_ok.1 hp
    rcases QuasiNewton.perform_footprint hstep with ⟨fault, hfault, hdata⟩ | ⟨hok, hst, hstored⟩
    · exact .inl ⟨fault, hfault, hdata, fun h => absurd hkind h⟩
    · obtain ⟨first, rfl, hkept⟩ :=
        (Settled.iqnIls s hbuilt hweighting hidle hbegun).begun_of_started hst
      have hids : s.trackedIds = s.config.dataIds ++ QuasiNewton.others s.config first :=
        congrArg (s.config.dataIds ++ ·) hkept.secondaryIds
      exact .inr ⟨hok, _, by rw [worksOn, hkind]; rfl, hids ▸ hstored⟩

open Session (single plain)

/-- A data map with two blocks of one value. -/
def pair (value old other before : ℝ) : DataMap ℝ :=
  .ofList [(0, ⟨[value], [old], 1⟩), (1, ⟨[other], [before], 1⟩)]

/-- A block that came after the start, of which the scheme knows nothing. -/
theorem run_footprint_later_block : ∃ (built : Scheme ℝ) (γ : Course ℝ)
    (reply : Reply (Scheme ℝ) ℝ), Scheme.assemble plain = .ok built ∧
      run ⟨built, none⟩ [.start (single 1 0)] = .ok γ ∧
      γ.scheme.perform (pair 3 1 7 6) = .ok reply ∧ reply.answer = .ok () ∧
      (pair 3 1 7 6).Stored [0] reply.data := by
  have hbuild : Scheme.assemble plain = .ok (.iqnIls (.new plain)) := rfl
  obtain ⟨γ, hrun, reply, hp, hok, hworks⟩ : ∃ γ : Course ℝ,
      run ⟨.iqnIls (.new plain), none⟩ [.start (single 1 0)] = .ok γ ∧
      ∃ reply, γ.scheme.perform (pair 3 1 7 6) = .ok reply ∧ reply.answer = .ok () ∧
        worksOn plain γ (pair 3 1 7 6) = some [0] :=
    ⟨_, rfl, _, rfl, rfl, rfl⟩
  refine ⟨_, γ, reply, hbuild, hrun, hp, hok, ?_⟩
  rcases run_footprint hbuild hrun hp with ⟨fault, hfault, -⟩ | ⟨-, ids, hids, hstored⟩
  · cases hok.symm.trans hfault
  · obtain rfl := Option.some.inj (hids.symm.trans hworks)
    exact hstored

end Course

end Cosimulation.Acceleration

import Cosimulation.Proofs.QuasiNewton.Blockwise
import Cosimulation.Proofs.Scheme.Watching

/-!
# A single primary block

With one primary block all rows of the least-squares problem have one weight. It scales the columns
and the right side alike, so it changes neither which columns are taken nor the coefficients:
`watch_unweighted` runs a quasi-Newton scheme with any preconditioner beside the scheme without one,
and sees no difference.

The scheme without a preconditioner never touches its factorization between two windows. The other
may weight its columns anew and refactorize them. What keeps the two together is that the columns,
freed of the weight, are those of the plain scheme (`Levelled.rescale`), and that refactorizing
these would give the factorization the plain scheme has.
-/

namespace Cosimulation.Acceleration

open Factorization

/-- The settings with the constant preconditioner without factors. -/
def Config.unweighted (c : Config ℝ) : Config ℝ := { c with preconditioner := {} }

/-- Settings that pass their check also do so without their preconditioner. -/
theorem Config.validate_unweighted {c : Config ℝ} (h : c.validate = .ok ()) :
    c.unweighted.validate = .ok () := by
  obtain ⟨hfactor, hlimit, hempty, hnodup, -⟩ := Config.validate_ok_iff.1 h
  exact Config.validate_ok_iff.2 ⟨hfactor, hlimit, hempty, hnodup, fun _ => rfl⟩

namespace Preconditioner

variable {ids : List DataId} {id : DataId} {size : DataId → Nat} {w : ℝ} {p p' q : Preconditioner ℝ}

/-- The weights of the first preconditioner are one number, which `w` makes one, and those of the
second are one for good. -/
structure Levelled (ids : List DataId) (size : DataId → Nat) (w : ℝ) (p p' : Preconditioner ℝ) :
    Prop where
  pos : 0 < w
  blocks : ∃ ω sums, p.Blockwise ids size ω sums ∧ (∀ id, 0 ≤ sums id) ∧ ∀ id ∈ ids, w * ω id = 1
  ones : p'.weights = (blockRows size ids).map fun _ => 1
  frozen : p'.frozen = true

theorem Levelled.weights (h : Levelled ids size w p p') :
    Relaid (blockRows size ids) (blockRows size ids) w p.weights p'.weights := by
  obtain ⟨ω, sums, hp, -, hω⟩ := h.blocks
  refine ⟨fun k => ω k.1, hp.weights, ?_⟩
  rw [h.ones]
  exact List.map_congr_left fun k hk => (hω k.1 (mem_of_mem_blockRows hk)).symm

theorem fit_levelled (size : DataId → Nat) (hone : ids = [id])
    (hp : p.config.validate ids.length = .ok ()) (hp' : p'.config = {}) :
    ∃ w, Levelled ids size w (p.fit (ids.map size)) (p'.fit (ids.map size)) := by
  have hnodup : ids.Nodup := hone ▸ List.nodup_singleton id
  have hpos := settledWeight_pos hp id
  refine ⟨1 / settledWeight p.config ids id, one_div_pos.2 hpos,
    ⟨_, _, fit_blockwise p size hnodup hp, fun _ => le_refl 0, fun j hj => ?_⟩, ?_, ?_⟩
  · rw [hone, List.mem_singleton] at hj
    rw [hj, one_div_mul_cancel hpos.ne']
  · rw [(fit_blockwise p' size hnodup (by rw [hp']; rfl)).weights, hp']
    exact List.map_congr_left fun k _ => by
      unfold settledWeight
      simp
  · show decide (p'.config.kind = .constant) = true
    rw [hp']
    rfl

theorem Levelled.accumulate {q' : Preconditioner ℝ} {r r' : Vec ℝ} (h : Levelled ids size w p p')
    (hr : Relaid (blockRows size ids) (blockRows size ids) 1 r r') (hq : p.accumulate r = .ok q)
    (hq' : p'.accumulate r' = .ok q') : Levelled ids size w q q' := by
  obtain ⟨ω, sums, hp, hsums, hω⟩ := h.blocks
  obtain ⟨g, rfl, -⟩ := hr
  obtain rfl : q' = p' := by
    rw [Preconditioner.accumulate, if_pos (.inr h.frozen)] at hq'
    exact (Except.ok.inj hq').symm
  exact ⟨h.pos, ⟨ω, _, (hp.accumulate hq).2, summed_nonneg hsums, hω⟩, h.ones, h.frozen⟩

/-- Weights that changed are again one number. -/
theorem Levelled.update (hone : ids = [id]) (h : Levelled ids size w p p') {v r v' r' : Vec ℝ}
    (hv : Relaid (blockRows size ids) (blockRows size ids) 1 v v')
    (hr : Relaid (blockRows size ids) (blockRows size ids) 1 r r') (hq : p.update v r = .ok q) :
    ∃ w₁, Levelled ids size w₁ q p' ∧ (q.weightsChanged = false → w₁ = w) := by
  by_cases hfixed : p.frozen ∨ p.config.kind = .constant
  · rw [Preconditioner.update, if_pos hfixed] at hq
    obtain rfl := Except.ok.inj hq
    exact ⟨w, h, fun _ => rfl⟩
  obtain ⟨ω, sums, hp, hsums, hω⟩ := h.blocks
  obtain ⟨g, rfl, -⟩ := hv
  obtain ⟨k, rfl, -⟩ := hr
  obtain ⟨hblocks, -⟩ := hp.update hfixed hq
  have hsums' : ∀ j, 0 ≤ (if p.config.kind = .residualSum then fun _ => 0 else sums) j := by
    split
    · exact fun _ => le_refl 0
    · exact hsums
  cases hchanged : q.weightsChanged with
  | false =>
    have hsame := (weights_of_unchanged hq hchanged).trans hp.weights
    exact ⟨w, ⟨h.pos, ⟨ω, _, ⟨hblocks.sizes, hsame, hblocks.sums⟩, hsums', hω⟩, h.ones, h.frozen⟩,
      fun _ => rfl⟩
  | true =>
    have hpos : 0 < freshWeight p.config.kind size g k sums (ids.map sums).sum id :=
      freshWeight_pos hsums id
    refine ⟨1 / _, ⟨one_div_pos.2 hpos, ⟨_, _, hblocks, hsums', fun j hj => ?_⟩, h.ones, h.frozen⟩,
      fun hno => absurd hno Bool.noConfusion⟩
    rw [hone, List.mem_singleton] at hj
    rw [hj, one_div_mul_cancel hpos.ne']

theorem Levelled.acknowledge (h : Levelled ids size w p p') :
    Levelled ids size w p.acknowledge p' := by
  obtain ⟨ω, sums, hp, hω⟩ := h.blocks
  exact ⟨h.pos, ⟨ω, sums, ⟨hp.sizes, hp.weights, hp.sums⟩, hω⟩, h.ones, h.frozen⟩

/-- Weights that are one change nothing. -/
theorem Levelled.plain (h : Levelled ids size w p p') {v v' : Vec ℝ}
    (hv : Relaid (blockRows size ids) (blockRows size ids) w v v') :
    p'.revert v' = .ok v' ∧ p'.apply v' = .ok v' := by
  have hl : v'.length = p'.weights.length := by rw [hv.length', h.ones, List.length_map]
  obtain ⟨g, -, rfl⟩ := hv
  rw [revert, apply, if_pos hl, if_pos hl, h.ones, List.zipWith_map, List.zipWith_self,
    List.zipWith_map, List.zipWith_self]
  simp only [div_one, mul_one, and_self]

/-- Columns that are weighted anew are still those of the plain scheme, up to the new weight. -/
theorem Levelled.rescale {w₁ : ℝ} (h : Levelled ids size w p p') (h₁ : Levelled ids size w₁ q p')
    {vs us xs vs' : List (Vec ℝ)}
    (hvs : List.Forall₂ (Relaid (blockRows size ids) (blockRows size ids) w) vs vs')
    (hus : vs.mapM p.revert = .ok us) (hxs : us.mapM q.apply = .ok xs) :
    List.Forall₂ (Relaid (blockRows size ids) (blockRows size ids) w₁) xs vs' := by
  have hplain : ∀ v' ∈ vs', p'.revert v' = .ok v' ∧ p'.apply v' = .ok v' :=
    ((List.forall₂_and_left vs' vs).1 (hvs.flip.imp fun v' v hv => ⟨h.plain hv, hv⟩)).1
  have hself {f : Vec ℝ → Except (Violation ℝ) (Vec ℝ)} (hf : ∀ v' ∈ vs', f v' = .ok v') :
      vs'.mapM f = .ok vs' := by
    have hmap := mapM_total (g := id) hf
    rwa [List.map_id] at hmap
  exact relaid_rescale h.pos h.weights h₁.weights hvs hus (hself fun v' hv' => (hplain v' hv').1)
    hxs (hself fun v' hv' => (hplain v' hv').2)

end Preconditioner

/-! ## The schemes side by side -/

/-- The weights of a single block against none. -/
def Weighting.levelling (c : Config ℝ) : Weighting c c.unweighted where
  Agree := Preconditioner.Levelled c.dataIds
  pos h := h.pos
  weights h := h.weights

namespace QuasiNewton

variable {c : Config ℝ} {id : DataId} {size : DataId → Nat} {w : ℝ} {s s' t t' : QuasiNewton ℝ}

/-- While one scheme weights its columns anew, the other has nothing to do. -/
theorem Matched.level (hone : c.dataIds = [id])
    (h : Matched (Weighting.levelling c) size w s s') {n : Nat}
    (hf : Factorizes n s'.factorization s'.history.residuals) {v v' r r' : Vec ℝ}
    (hv : Relaid (blockRows size c.dataIds) (blockRows size c.dataIds) 1 v v')
    (hr : Relaid (blockRows size c.dataIds) (blockRows size c.dataIds) 1 r r')
    (ht : s.reweigh v r = .ok t) (ht' : s'.reweigh v' r' = .ok t') :
    ∃ w, Matched (Weighting.levelling c) size w t t' := by
  have hlevel : Preconditioner.Levelled c.dataIds size w s.preconditioner s'.preconditioner :=
    h.agree
  obtain rfl : t' = s' := by
    rw [reweigh, if_pos (.inr hlevel.frozen)] at ht'
    exact (Except.ok.inj ht').symm
  unfold reweigh at ht
  split at ht
  next =>
    obtain rfl := Except.ok.inj ht
    exact ⟨w, h⟩
  next =>
    obtain ⟨us, hus, ht⟩ := bind_ok ht
    obtain ⟨p, hp, ht⟩ := bind_ok ht
    obtain ⟨xs, hxs, ht⟩ := bind_ok ht
    obtain ⟨w₁, h₁, hsame⟩ := hlevel.update hone hv hr hp
    have hcolumns := hlevel.rescale h₁ h.history.residuals hus hxs
    have hhistory : History.Tied (blockRows size c.dataIds) (blockRows size c.dataIds) w₁
        { s.history with residuals := xs } t'.history :=
      ⟨hcolumns, h.history.iterates, h.history.secondary, h.history.windows⟩
    dsimp only at ht
    split at ht
    next =>
      obtain ⟨⟨f, refused⟩, hrebuild, ht⟩ := bind_ok ht
      obtain ⟨s₁, hd, ht⟩ := bind_ok ht
      obtain rfl := Except.ok.inj ht
      -- the plain scheme would refactorize its columns to the factorization it has
      obtain ⟨rfl, hsimilar⟩ := rebuild_similar (.refl _) h₁.pos hcolumns hrebuild hf.rebuild_eq
      obtain rfl := Except.ok.inj hd
      exact ⟨w₁, h.outline, h₁.acknowledge, hhistory, hsimilar⟩
    next hchanged =>
      obtain rfl := Except.ok.inj ht
      obtain rfl := hsame (Bool.eq_false_iff.2 hchanged)
      exact ⟨w₁, h.outline, h₁, hhistory, h.factorization⟩

end QuasiNewton

theorem Weighting.levelling_kept {c : Config ℝ} {id : DataId} (hone : c.dataIds = [id])
    (hv : c.preconditioner.validate c.dataIds.length = .ok ()) : (Weighting.levelling c).Kept where
  fit size hp hp' := Preconditioner.fit_levelled size hone (hp ▸ hv) hp'
  accumulate h hr hq hq' := h.accumulate hr hq hq'
  reweigh h hf hv hr ht ht' := h.level hone hf hv hr ht ht'

namespace Coupled

/-- With a single primary block, a quasi-Newton scheme does the same with any preconditioner as
without. -/
theorem watch_unweighted {c : Config ℝ} (h : c.validate = .ok ()) (hkind : c.kind = .iqnIls)
    {id : DataId} (hone : c.dataIds = [id]) :
    ∃ built plain, Scheme.build c = .ok built ∧ Scheme.build c.unweighted = .ok plain ∧
      ∀ data events, ∃ sights,
        watch ⟨built, data⟩ events = .ok sights ∧ watch ⟨plain, data⟩ events = .ok sights := by
  have hv := (Config.validate_ok_iff.1 h).2.2.2.2 hkind
  have hakin : c.Akin c.unweighted := ⟨.refl _, Config.nodup_of_validate h, rfl⟩
  exact ⟨_, _, Scheme.build_iqnIls h hkind,
    Scheme.build_iqnIls (Config.validate_unweighted h) hkind,
    watch_new (Weighting.levelling_kept hone hv) hakin⟩

open Session (single plain)

/-- Settings with one block, weighted by its residual. -/
noncomputable def residualWeighted : Config ℝ :=
  { plain with preconditioner := { kind := .residual, maxNonConstWindows := some 2 } }

theorem watch_unweighted_upheaval : residualWeighted.validate = .ok () ∧
    ∃ built plain, Scheme.build residualWeighted = .ok built ∧
      Scheme.build residualWeighted.unweighted = .ok plain ∧ ∃ sights,
        watch ⟨built, single 1 0⟩ upheaval = .ok sights ∧
          watch ⟨plain, single 1 0⟩ upheaval = .ok sights := by
  have hvalid : residualWeighted.validate = .ok () := by
    unfold Config.validate
    simp [residualWeighted, plain, isRelaxationFactor, PreconditionerConfig.validate]
  obtain ⟨built, plain, hb, hp, hwatch⟩ := watch_unweighted hvalid rfl rfl
  exact ⟨hvalid, built, plain, hb, hp, hwatch (single 1 0) upheaval⟩

end Coupled

end Cosimulation.Acceleration

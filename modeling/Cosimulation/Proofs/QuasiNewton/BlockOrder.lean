import Cosimulation.Proofs.QuasiNewton.Blockwise
import Cosimulation.Proofs.QuasiNewton.Twins

/-!
# Blocks in another order

Two quasi-Newton schemes that name the same primary blocks in different orders give each block the
same weight. A weight depends on the part of the block in values and residual, and on the sums of
all blocks through their total alone (`SameWeights.update`). Weights change in both schemes or in
neither, so the schemes weight their columns anew and refactorize them in the same calls
(`Matched.reorder`).
-/

namespace Cosimulation.Acceleration

open Factorization

/-- The same settings with the blocks in another order. A block keeps its factor. -/
structure Config.Reordered (c c' : Config ℝ) : Prop where
  dataIds : c.dataIds.Perm c'.dataIds
  factorCount : c'.preconditioner.factors.length = c.preconditioner.factors.length
  factors : (c.dataIds.zip c.preconditioner.factors).Perm
    (c'.dataIds.zip c'.preconditioner.factors)
  others : c' = { c with
    dataIds := c'.dataIds
    preconditioner := { c.preconditioner with factors := c'.preconditioner.factors } }

namespace Config.Reordered

variable {c c' : Config ℝ}

theorem settings (h : c.Reordered c') : c'.settings = c.settings := by
  rw [h.others]
  rfl

theorem kind (h : c.Reordered c') : c'.kind = c.kind := by
  rw [h.others]

theorem weighting (h : c.Reordered c') :
    c'.preconditioner.kind = c.preconditioner.kind ∧
      c'.preconditioner.maxNonConstWindows = c.preconditioner.maxNonConstWindows := by
  rw [h.others]
  exact ⟨rfl, rfl⟩

theorem akin (h : c.Reordered c') (hnodup : c.dataIds.Nodup) : c.Akin c' :=
  ⟨h.dataIds, hnodup, h.settings⟩

/-- The factors of settings that pass their check are the same in another order. -/
theorem validate_preconditioner (h : c.Reordered c')
    (hv : c.preconditioner.validate c.dataIds.length = .ok ()) :
    c'.preconditioner.validate c'.dataIds.length = .ok () := by
  rcases PreconditionerConfig.validate_ok_iff.1 hv with hnone | ⟨hkind, hl, hpos⟩
  · refine PreconditionerConfig.validate_ok_iff.2 (.inl (List.length_eq_zero_iff.1 ?_))
    rw [h.factorCount, hnone]
    rfl
  · have hl' : c'.preconditioner.factors.length = c'.dataIds.length := by
      rw [h.factorCount, hl, h.dataIds.length_eq]
    have hperm := h.factors.map Prod.snd
    rw [List.map_snd_zip hl.le, List.map_snd_zip hl'.le] at hperm
    exact PreconditionerConfig.validate_ok_iff.2
      (.inr ⟨h.weighting.1.trans hkind, hl', fun f hf => hpos f (hperm.mem_iff.2 hf)⟩)

/-- Settings pass their check in any order. -/
theorem validate (h : c.Reordered c') (hv : c.validate = .ok ()) : c'.validate = .ok () := by
  obtain ⟨hfactor, hlimit, hempty, hnodup, hweights⟩ := Config.validate_ok_iff.1 hv
  refine Config.validate_ok_iff.2 ⟨?_, ?_, ?_, h.dataIds.nodup hnodup, fun hkind =>
    h.validate_preconditioner (hweights (h.kind.symm.trans hkind))⟩
  · rw [h.others]
    exact hfactor
  · rw [h.others]
    exact hlimit
  · rw [h.kind]
    exact fun hno => hempty ⟨hno.1, (h.dataIds.trans (.of_eq hno.2)).eq_nil⟩

/-- A block has the same weight in the beginning. -/
theorem settledWeight (h : c.Reordered c') (hnodup : c.dataIds.Nodup)
    (hv : c.preconditioner.validate c.dataIds.length = .ok ()) (id : DataId) :
    Preconditioner.settledWeight c'.preconditioner c'.dataIds id =
      Preconditioner.settledWeight c.preconditioner c.dataIds id := by
  unfold Preconditioner.settledWeight
  rw [h.weighting.1]
  split
  next =>
    have hkeys : ((c.dataIds.zip c.preconditioner.factors).map Prod.fst).Nodup := by
      rcases PreconditionerConfig.validate_ok_iff.1 hv with hnone | ⟨-, hl, -⟩
      · rw [hnone, List.zip_nil_right]
        exact List.nodup_nil
      · rw [List.map_fst_zip hl.ge]
        exact hnodup
    rw [OrderedMap.lookup_perm h.factors hkeys]
  next => rw [List.zip_nil_right, List.zip_nil_right]

end Config.Reordered

namespace Preconditioner

variable {ids ids' : List DataId} {size : DataId → Nat} {p p' q q' : Preconditioner ℝ}

/-- Blocks have the same weights in two orders, and these will change in the same calls. -/
structure SameWeights (ids ids' : List DataId) (size : DataId → Nat) (p p' : Preconditioner ℝ) :
    Prop where
  blocks : ∃ ω sums, p.Blockwise ids size ω sums ∧ p'.Blockwise ids' size ω sums
  kind : p'.config.kind = p.config.kind
  limit : p'.config.maxNonConstWindows = p.config.maxNonConstWindows
  windows : p'.windows = p.windows
  frozen : p'.frozen = p.frozen
  weightsChanged : p'.weightsChanged = p.weightsChanged

theorem SameWeights.weights (h : SameWeights ids ids' size p p') :
    Relaid (blockRows size ids) (blockRows size ids') 1 p.weights p'.weights := by
  obtain ⟨ω, sums, hp, hp'⟩ := h.blocks
  exact ⟨fun k => ω k.1, hp.weights, by simp only [hp'.weights, one_mul]⟩

theorem SameWeights.acknowledge (h : SameWeights ids ids' size p p') :
    SameWeights ids ids' size p.acknowledge p'.acknowledge := by
  obtain ⟨ω, sums, hp, hp'⟩ := h.blocks
  exact ⟨⟨ω, sums, ⟨hp.sizes, hp.weights, hp.sums⟩, ⟨hp'.sizes, hp'.weights, hp'.sums⟩⟩, h.kind,
    h.limit, h.windows, h.frozen, rfl⟩

theorem SameWeights.accumulate (h : SameWeights ids ids' size p p') {r r' : Vec ℝ}
    (hr : Relaid (blockRows size ids) (blockRows size ids') 1 r r') (hq : p.accumulate r = .ok q)
    (hq' : p'.accumulate r' = .ok q') : SameWeights ids ids' size q q' := by
  obtain ⟨ω, sums, hp, hp'⟩ := h.blocks
  obtain ⟨g, rfl, rfl⟩ := hr
  simp only [one_mul] at hq'
  have hblocks := (hp.accumulate hq).2
  have hblocks' := (hp'.accumulate hq').2
  have hsummed : p'.summed size g sums = p.summed size g sums := by
    funext id
    rw [summed, summed, h.kind, h.frozen]
  rw [hsummed] at hblocks'
  obtain ⟨_, rfl⟩ := accumulate_eq hq
  obtain ⟨_, rfl⟩ := accumulate_eq hq'
  exact ⟨⟨ω, _, hblocks, hblocks'⟩, h.kind, h.limit, h.windows, h.frozen, h.weightsChanged⟩

/-- Weights taken anew are again the same. -/
theorem SameWeights.update (hids : ids.Perm ids') (h : SameWeights ids ids' size p p')
    {v v' r r' : Vec ℝ} (hv : Relaid (blockRows size ids) (blockRows size ids') 1 v v')
    (hr : Relaid (blockRows size ids) (blockRows size ids') 1 r r') (hq : p.update v r = .ok q)
    (hq' : p'.update v' r' = .ok q') : SameWeights ids ids' size q q' := by
  by_cases hfixed : p.frozen ∨ p.config.kind = .constant
  · have hfixed' : p'.frozen ∨ p'.config.kind = .constant := by rwa [h.frozen, h.kind]
    rw [Preconditioner.update, if_pos hfixed] at hq
    rw [Preconditioner.update, if_pos hfixed'] at hq'
    obtain rfl := Except.ok.inj hq
    obtain rfl := Except.ok.inj hq'
    exact h
  have hfixed' : ¬ (p'.frozen ∨ p'.config.kind = .constant) := by rwa [h.frozen, h.kind]
  obtain ⟨ω, sums, hp, hp'⟩ := h.blocks
  obtain ⟨g, rfl, rfl⟩ := hv
  obtain ⟨k, rfl, rfl⟩ := hr
  simp only [one_mul] at hq'
  obtain ⟨hblocks, hconfig, hwindows, hfrozen, hchanged⟩ := hp.update hfixed hq
  obtain ⟨hblocks', hconfig', hwindows', hfrozen', hchanged'⟩ := hp'.update hfixed' hq'
  -- of the other blocks a weight sees the total alone
  rw [h.kind, ← (hids.map sums).sum_eq] at hblocks' hchanged'
  refine ⟨⟨_, _, hblocks, hblocks'⟩, ?_, ?_, ?_, ?_, ?_⟩
  · rw [hconfig, hconfig', h.kind]
  · rw [hconfig, hconfig', h.limit]
  · rw [hwindows, hwindows', h.windows]
  · rw [hfrozen, hfrozen', isExhausted, isExhausted, h.limit, h.windows]
  · rw [Bool.eq_iff_iff, hchanged, hchanged', h.weightsChanged]
    simp only [(blockRows_perm hids).mem_iff]

theorem fit_sameWeights {c c' : Config ℝ} (h : c.Reordered c') (hnodup : c.dataIds.Nodup)
    (hv : c.preconditioner.validate c.dataIds.length = .ok ()) (size : DataId → Nat)
    (hp : p.config = c.preconditioner) (hp' : p'.config = c'.preconditioner) :
    SameWeights c.dataIds c'.dataIds size (p.fit (c.dataIds.map size))
      (p'.fit (c'.dataIds.map size)) := by
  have hblocks := fit_blockwise p size hnodup (hp ▸ hv)
  have hblocks' := fit_blockwise p' size (h.dataIds.nodup hnodup)
    (hp' ▸ h.validate_preconditioner hv)
  have hweight := funext (h.settledWeight hnodup hv)
  rw [hp] at hblocks
  rw [hp', hweight] at hblocks'
  have hkind : p'.config.kind = p.config.kind := by rw [hp, hp', h.weighting.1]
  refine ⟨⟨_, _, hblocks, hblocks'⟩, hkind, ?_, rfl, ?_, rfl⟩
  · show p'.config.maxNonConstWindows = p.config.maxNonConstWindows
    rw [hp, hp', h.weighting.2]
  · show decide (p'.config.kind = .constant) = decide (p.config.kind = .constant)
    rw [hkind]

end Preconditioner

/-- The weights of the same blocks in two orders. -/
def Weighting.reordering (c c' : Config ℝ) : Weighting c c' where
  Agree size w p p' := w = 1 ∧ Preconditioner.SameWeights c.dataIds c'.dataIds size p p'
  pos h := h.1 ▸ one_pos
  weights h := h.1 ▸ h.2.weights

namespace QuasiNewton

variable {c c' : Config ℝ} {size : DataId → Nat} {w : ℝ} {s s' t t' : QuasiNewton ℝ}

/-- Both schemes weight their columns anew, or neither does. -/
theorem Matched.reorder (hids : c.dataIds.Perm c'.dataIds)
    (h : Matched (Weighting.reordering c c') size w s s') {v v' r r' : Vec ℝ}
    (hv : Relaid (blockRows size c.dataIds) (blockRows size c'.dataIds) 1 v v')
    (hr : Relaid (blockRows size c.dataIds) (blockRows size c'.dataIds) 1 r r')
    (ht : s.reweigh v r = .ok t) (ht' : s'.reweigh v' r' = .ok t') :
    Matched (Weighting.reordering c c') size w t t' := by
  obtain ⟨rfl, hsame⟩ := h.agree
  have hboth : ((!s'.firstIteration) = true ∨ s'.preconditioner.frozen = true) ↔
      ((!s.firstIteration) = true ∨ s.preconditioner.frozen = true) := by
    rw [h.firstIteration, hsame.frozen]
  unfold reweigh at ht ht'
  split at ht
  next hskip =>
    rw [if_pos (hboth.2 hskip)] at ht'
    obtain rfl := Except.ok.inj ht
    obtain rfl := Except.ok.inj ht'
    exact h
  next hskip =>
    rw [if_neg (mt hboth.1 hskip)] at ht'
    obtain ⟨us, hus, ht⟩ := bind_ok ht
    obtain ⟨p, hp, ht⟩ := bind_ok ht
    obtain ⟨xs, hxs, ht⟩ := bind_ok ht
    obtain ⟨us', hus', ht'⟩ := bind_ok ht'
    obtain ⟨p', hp', ht'⟩ := bind_ok ht'
    obtain ⟨xs', hxs', ht'⟩ := bind_ok ht'
    have hnew := hsame.update hids hv hr hp hp'
    have hcolumns := Preconditioner.relaid_rescale one_pos hsame.weights hnew.weights
      h.history.residuals hus hus' hxs hxs'
    have hhistory : History.Tied (blockRows size c.dataIds) (blockRows size c'.dataIds) 1
        { s.history with residuals := xs } { s'.history with residuals := xs' } :=
      ⟨hcolumns, h.history.iterates, h.history.secondary, h.history.windows⟩
    dsimp only at ht ht'
    split at ht
    next hchanged =>
      rw [if_pos (hnew.weightsChanged.trans hchanged)] at ht'
      obtain ⟨⟨f, refused⟩, hf, ht⟩ := bind_ok ht
      obtain ⟨s₁, hd, ht⟩ := bind_ok ht
      obtain ⟨⟨f', refused'⟩, hf', ht'⟩ := bind_ok ht'
      obtain ⟨s₁', hd', ht'⟩ := bind_ok ht'
      obtain rfl := Except.ok.inj ht
      obtain rfl := Except.ok.inj ht'
      obtain ⟨rfl, hsimilar⟩ := rebuild_similar (blockRows_perm hids) one_pos hcolumns hf hf'
      have hrebuilt : Matched (Weighting.reordering c c') size 1
          { s with preconditioner := p, history := { s.history with residuals := xs },
                   factorization := f }
          { s' with preconditioner := p', history := { s'.history with residuals := xs' },
                    factorization := f' } := ⟨h.outline, ⟨rfl, hnew⟩, hhistory, hsimilar⟩
      have hdropped := hrebuilt.dropAll hd hd'
      exact ⟨hdropped.outline, ⟨rfl, hdropped.agree.2.acknowledge⟩, hdropped.history,
        hdropped.factorization⟩
    next hchanged =>
      rw [if_neg (hnew.weightsChanged ▸ hchanged)] at ht'
      obtain rfl := Except.ok.inj ht
      obtain rfl := Except.ok.inj ht'
      exact ⟨h.outline, ⟨rfl, hnew⟩, hhistory, h.factorization⟩

end QuasiNewton

theorem Weighting.reordering_kept {c c' : Config ℝ} (h : c.Reordered c') (hnodup : c.dataIds.Nodup)
    (hv : c.preconditioner.validate c.dataIds.length = .ok ()) :
    (Weighting.reordering c c').Kept where
  fit size hp hp' := ⟨1, rfl, Preconditioner.fit_sameWeights h hnodup hv size hp hp'⟩
  accumulate ha hr hq hq' := ⟨ha.1, ha.2.accumulate hr hq hq'⟩
  reweigh hm _ hv hr ht ht' := ⟨_, hm.reorder h.dataIds hv hr ht ht'⟩

end Cosimulation.Acceleration

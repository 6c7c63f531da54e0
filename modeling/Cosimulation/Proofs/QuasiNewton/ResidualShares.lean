import Cosimulation.Proofs.Data.Rows
import Cosimulation.Proofs.QuasiNewton.Reweighing

/-!
# Weights from summed residuals

Weights of the kind `residualSum` are taken from the residuals that were summed up since weights
were last taken. The first call of a window accumulates its own residual before it takes the
weights, and the sums start anew afterwards. So the residual of the first visit of a window counts
for the weights that this visit takes, and not for those of the window after (`Chronicle.later`):
`weights_of_summed_residuals` gives the weight of each block from the later visits of the last window
and the call itself.
-/

namespace Cosimulation

/-- What a block differs by from its previous values. -/
def DataMap.residualOf {α : Type} [Scalar α] (d : DataMap α) (id : DataId) : Vec α :=
  (d.valuesOf id).sub (d.oldOf id)

namespace Acceleration

open Preconditioner (Operation Staying vanishing)

namespace Chronicle

section
variable {α : Type}

section
variable [Scalar α] {χ : Chronicle α} {d : DataMap α}

theorem Fitting.residual_eq (h : χ.Fitting d) :
    (d.stacked χ.dataIds).sub (d.stackedOld χ.dataIds) = χ.dataIds.flatMap d.residualOf :=
  zipWith_flatMap _ fun id hid => (h id (List.mem_append_left _ hid)).1.length_eq

theorem Fitting.length_residualOf (h : χ.Fitting d) {id : DataId} (hid : id ∈ χ.dataIds) :
    (d.residualOf id).length = χ.size id := by
  obtain ⟨hpaired, hlength⟩ := h id (List.mem_append_left _ hid)
  exact (Vec.length_sub hpaired.length_eq).trans (hpaired.length_eq.symm.trans hlength)

end

/-- Of the first `n` visits those of the last window, but for its first. -/
def later (χ : Chronicle α) (n : Nat) : List Nat :=
  (List.range n).filter fun i => χ.windowOf i = χ.windowOf (n - 1) ∧ ¬ χ.Opens i

/-- The first visit of a window is followed by no later one yet. -/
theorem later_of_opens {χ : Chronicle α} {n : Nat} (h : χ.Opens n) : χ.later (n + 1) = [] := by
  refine List.filter_eq_nil_iff.2 fun i hi => ?_
  rw [decide_eq_true_iff]
  rintro ⟨hwindow, hlater⟩
  rcases Nat.lt_succ_iff_lt_or_eq.1 (List.mem_range.1 hi) with hlt | rfl
  · exact h i hlt hwindow
  · exact hlater h

/-- Every other visit is a later one of the window of the visit before. -/
theorem later_of_not_opens {χ : Chronicle α} {n : Nat}
    (hascending : ∀ i j, i ≤ j → j ≤ n → χ.windowOf i ≤ χ.windowOf j) (h : ¬ χ.Opens n) :
    χ.later (n + 1) = χ.later n ++ [n] := by
  have hwindow : χ.windowOf (n - 1) = χ.windowOf n := by
    obtain ⟨j, hj, heq⟩ : ∃ j < n, χ.windowOf j = χ.windowOf n := by
      unfold Opens at h
      push Not at h
      exact h
    refine Nat.le_antisymm (hascending _ _ (Nat.sub_le n 1) (Nat.le_refl n)) ?_
    rw [← heq]
    exact hascending _ _ (Nat.le_sub_one_of_lt hj) (Nat.sub_le n 1)
  rw [later, List.range_succ, List.filter_append, Nat.add_sub_cancel, later, hwindow]
  congr 1
  exact List.filter_eq_self.2 fun i hi => by
    rw [List.mem_singleton.1 hi]
    exact decide_eq_true ⟨rfl, h⟩

end

/-- The norms of the residual of a block over the later visits, summed up. -/
noncomputable def carried (χ : Chronicle ℝ) (n : Nat) (id : DataId) : ℝ :=
  ((χ.later n).map fun i => Vec.norm ((χ.data i).residualOf id)).sum

end Chronicle

/-! ## The sums -/

namespace Preconditioner

variable {p p' : Preconditioner ℝ} {ids : List DataId} {size : DataId → Nat} {sums : DataId → ℝ}
  {f : DataId → Vec ℝ}

/-- The norm of the residual of each block is added to its sum. -/
theorem accumulate_blocks (hkind : p.config.kind = .residualSum) (hopen : p.frozen = false)
    (hsizes : p.sizes = ids.map size) (hsums : p.sums = ids.map sums)
    (hf : ∀ id ∈ ids, (f id).length = size id) (hp : p.accumulate (ids.flatMap f) = .ok p') :
    p'.config.kind = .residualSum ∧ p'.frozen = false ∧ p'.sizes = p.sizes ∧
      p'.sums = ids.map fun id => sums id + Vec.norm (f id) := by
  rw [accumulate, if_neg (by rw [hkind, hopen]; simp), hsizes, segments_flatMap hf] at hp
  obtain rfl := Except.ok.inj hp
  refine ⟨hkind, hopen, hsizes.symm, ?_⟩
  show p.sums.zipWith _ (ids.map f) = _
  rw [hsums, List.zipWith_map, List.zipWith_self]

/-- The weights of summed residuals. -/
theorem update_shares (hkind : p.config.kind = .residualSum) (hopen : p.frozen = false)
    {values residual : Vec ℝ} (hp : p.update values residual = .ok p') :
    p'.weights = Vec.spread p.sizes (shareWeights p.sums) ∧
      p'.sums = List.replicate p.sums.length 0 := by
  rcases update_parts hp with ⟨hclosed, -⟩ | ⟨-, ws, hws, -, -, hweights, hsums, -⟩
  · rcases hclosed with hfrozen | hconstant
    · exact absurd (hopen.symm.trans hfrozen) Bool.false_ne_true
    · exact absurd (hkind.symm.trans hconstant) PreconditionerKind.noConfusion
  · rw [blockWeights, hkind] at hws
    obtain rfl := Except.ok.inj hws
    rw [if_pos hkind] at hsums
    refine ⟨?_, hsums⟩
    rcases hweights with ⟨hnew, -⟩ | ⟨hsame, hold, -⟩
    · exact hnew
    · rw [hold, ← beq_iff_eq.1 hsame]

/-- The weight of a block for its sum and the sums of all. -/
theorem shareWeights_map (hsums : ∀ id ∈ ids, 0 ≤ sums id) :
    shareWeights (ids.map sums) = ids.map fun id =>
      if vanishing < (ids.map sums).sum ∧ vanishing ≤ sums id / (ids.map sums).sum then
        (ids.map sums).sum / sums id
      else 1 := by
  rw [shareWeights, Vec.sum, ← List.sum_eq_foldl, List.map_map]
  refine List.map_congr_left fun id hid => ?_
  show (if vanishing < (ids.map sums).sum then invertOrOne _ else 1) = _
  by_cases htotal : vanishing < (ids.map sums).sum
  · have hpos : (0 : ℝ) < vanishing := by unfold vanishing; norm_num
    rw [if_pos htotal, invertOrOne_of_nonneg (div_nonneg (hsums id hid) (hpos.trans htotal).le),
      one_div_div]
    simp only [htotal, true_and]
  · rw [if_neg htotal, if_neg fun h => htotal h.1]

/-- After the first visits, while weights are not frozen, the sums are those of the later visits of
the last window. -/
theorem sums_of_asked {p₀ : Preconditioner ℝ} (hkind : p₀.config.kind = .residualSum)
    {χ : Chronicle ℝ} (hfit : ∀ i < χ.visits.length, χ.Fitting (χ.data i))
    (hascending : ∀ i j, i ≤ j → j < χ.visits.length → χ.windowOf i ≤ χ.windowOf j) :
    ∀ {n : Nat} {p : Preconditioner ℝ}, n ≤ χ.visits.length →
      (p₀.fit χ.sizes).run (χ.asked n) = .ok p → p.frozen = false →
        p.sums = χ.dataIds.map (χ.carried n) := by
  intro n
  induction n with
  | zero =>
    intro p _ hr _
    obtain rfl := Except.ok.inj hr
    show List.replicate (χ.dataIds.map χ.size).length 0 = χ.dataIds.map fun _ => 0
    rw [List.length_map, List.map_const']
  | succ n ih =>
    intro p hn hr hopen
    rw [Chronicle.asked_succ, run_append] at hr
    obtain ⟨p₁, hp₁, hr⟩ := bind_ok hr
    have hopen₁ : p₁.frozen = false := Bool.eq_false_iff.2 fun hfrozen =>
      absurd (unchanged_of_frozen (Snapshot.staying_operations _ _) hfrozen hr).2.2
        (Bool.eq_false_iff.1 hopen)
    obtain ⟨hsizes, hconfig⟩ := run_fixed (χ.staying_asked n) hp₁
    have hkind₁ : p₁.config.kind = .residualSum := (congrArg _ hconfig).trans hkind
    have hsums := ih (Nat.le_of_succ_le hn) hp₁ hopen₁
    -- the residual of visit `n` comes first, whether or not it opens its window
    obtain ⟨p₂, hp₂, hr⟩ := bind_ok hr
    have hresidual : (χ.snapshot n).residual = χ.dataIds.flatMap (χ.data n).residualOf :=
      (hfit n hn).residual_eq
    obtain ⟨hkind₂, hopen₂, -, hsums₂⟩ := accumulate_blocks hkind₁ hopen₁ hsizes hsums
      (fun id hid => (hfit n hn).length_residualOf hid) (hresidual ▸ hp₂)
    by_cases hopens : χ.Opens n
    · rw [decide_eq_true hopens] at hr
      obtain ⟨p₃, hp₃, hr⟩ := bind_ok hr
      obtain rfl := Except.ok.inj hr
      obtain ⟨-, hzero⟩ := update_shares hkind₂ hopen₂ hp₃
      refine hzero.trans ?_
      rw [hsums₂, List.length_map, ← List.map_const']
      refine List.map_congr_left fun id _ => ?_
      rw [Chronicle.carried, Chronicle.later_of_opens hopens]
      rfl
    · rw [decide_eq_false hopens] at hr
      obtain rfl := Except.ok.inj hr
      refine hsums₂.trans (List.map_congr_left fun id _ => ?_)
      rw [Chronicle.carried, Chronicle.carried, Chronicle.later_of_not_opens
        (fun i j hij hj => hascending i j hij (Nat.lt_of_le_of_lt hj hn)) hopens, List.map_append,
        List.sum_append, List.map_singleton, List.sum_singleton]

end Preconditioner

namespace Chronicle

/-- The sum that a block has in a call on these data that is the first of its window: the later
visits of the last window count, and the call itself. -/
noncomputable def residualSum (χ : Chronicle ℝ) (d : DataMap ℝ) (id : DataId) : ℝ :=
  χ.carried χ.visits.length id + Vec.norm (d.residualOf id)

theorem residualSum_nonneg (χ : Chronicle ℝ) (d : DataMap ℝ) (id : DataId) :
    0 ≤ χ.residualSum d id := by
  refine add_nonneg (List.sum_nonneg fun x hx => ?_) (Real.sqrt_nonneg _)
  obtain ⟨i, -, rfl⟩ := List.mem_map.1 hx
  exact Real.sqrt_nonneg _

end Chronicle

namespace Session

variable {σ : Session ℝ}

theorem Paced.windowOf_le (h : σ.Paced) {i j : Nat} (hij : i ≤ j)
    (hj : j < σ.chronicle.visits.length) :
    σ.chronicle.windowOf i ≤ σ.chronicle.windowOf j := by
  have hi := hij.trans_lt hj
  rw [Chronicle.windowOf, Chronicle.windowOf, List.getElem?_eq_getElem hi,
    List.getElem?_eq_getElem hj]
  rcases Nat.eq_or_lt_of_le hij with rfl | hlt
  · exact Nat.le_refl _
  · exact List.pairwise_iff_getElem.1 h.ascending i j hi hj hlt

theorem Unbroken.fitting_data (h : σ.Unbroken) {i : Nat} (hi : i < σ.chronicle.visits.length) :
    σ.chronicle.Fitting (σ.chronicle.data i) := by
  rw [Chronicle.data, List.getElem?_eq_getElem hi]
  exact h.fitting _ (List.getElem_mem hi)

theorem Unbroken.sums_eq (h : σ.Unbroken) (hp : σ.Paced)
    (hblocks : σ.scheme.preconditioner.sizes = σ.chronicle.sizes)
    (hkind : σ.scheme.preconditioner.config.kind = .residualSum)
    (hfrozen : σ.scheme.preconditioner.frozen = false) :
    σ.scheme.preconditioner.sums =
      σ.chronicle.dataIds.map (σ.chronicle.carried σ.chronicle.visits.length) := by
  obtain ⟨sizes, hrun⟩ := h.weights
  obtain ⟨hsizes, hconfig⟩ := Preconditioner.run_fixed (σ.chronicle.staying_asked _) hrun
  obtain rfl : sizes = σ.chronicle.sizes := hsizes.symm.trans hblocks
  exact Preconditioner.sums_of_asked ((congrArg _ hconfig).symm.trans hkind)
    (fun i hi => h.fitting_data hi) (fun i j hij hj => hp.windowOf_le hij hj) (Nat.le_refl _) hrun
    hfrozen

end Session

/-- In exact arithmetic and without a renewal but the start, an answered call that is the first of
its window takes weights of summed residuals, unless they are frozen, as follows. With the sum of a
block over the later visits of the last window and this call, the weight of the block is the total
of all sums over its own, or one where the total or the share vanishes. -/
theorem weights_of_summed_residuals {config : Config ℝ}
    (hkind : config.preconditioner.kind = .residualSum) {calls : List (Call ℝ)} {σ : Session ℝ}
    (hrun : (Session.new config).run calls = .ok σ)
    (honce : RenewedOnce ((Session.new config).marks calls)) {d : DataMap ℝ}
    {reply : Reply (QuasiNewton ℝ) ℝ} (hperform : σ.scheme.perform d = .ok reply)
    (hanswer : reply.answer = .ok ()) (hsame : σ.chronicle.arrival d = [])
    (hopens : (σ.chronicle.visit d).Opens σ.chronicle.visits.length)
    (hfrozen : σ.scheme.preconditioner.frozen = false) :
    reply.scheme.preconditioner.weights = Vec.spread σ.chronicle.sizes
      (config.dataIds.map fun id =>
        if vanishing < (config.dataIds.map (σ.chronicle.residualSum d)).sum ∧
            vanishing ≤ σ.chronicle.residualSum d id /
              (config.dataIds.map (σ.chronicle.residualSum d)).sum then
          (config.dataIds.map (σ.chronicle.residualSum d)).sum / σ.chronicle.residualSum d id
        else 1) := by
  have htraced := Session.run_traced hrun
  obtain ⟨σ₁, hrun₁, hexact⟩ := Session.run_total calls (Session.new_exact config)
  obtain rfl := Except.ok.inj (hrun₁.symm.trans hrun)
  have hconfig : σ₁.chronicle.config = config := Session.run_config hrun
  have hids : σ₁.chronicle.dataIds = config.dataIds := congrArg Config.dataIds hconfig
  obtain ⟨-, hst, hfit, hstep⟩ := htraced.sound.answered_step hperform hanswer (by simp [hsame])
  have hblocks : σ₁.scheme.preconditioner.sizes = σ₁.chronicle.sizes :=
    (hexact.exact hst).fits.blocks
  have hkind' : σ₁.scheme.preconditioner.config.kind = .residualSum := by
    rw [htraced.paced.weighting, hconfig]
    exact hkind
  have hsums := (htraced.unbroken honce).sums_eq htraced.paced hblocks hkind' hfrozen
  -- what the call asks: its residual is accumulated, and then the weights are taken
  have hasked := htraced.paced.step_run htraced.sound.follows hstep
  rw [decide_eq_true hopens] at hasked
  obtain ⟨p₁, haccumulate, hasked⟩ := bind_ok hasked
  obtain ⟨p₂, hupdate, hasked⟩ := bind_ok hasked
  obtain ⟨hkind₁, hopen₁, hsizes₁, hsums₁⟩ :=
    Preconditioner.accumulate_blocks hkind' hfrozen hblocks hsums
      (fun id hid => hfit.length_residualOf hid) (hfit.residual_eq ▸ haccumulate)
  have hlast : p₂.acknowledge = reply.scheme.preconditioner := Except.ok.inj hasked
  have hsums₁ : p₁.sums = config.dataIds.map (σ₁.chronicle.residualSum d) := hids ▸ hsums₁
  rw [← hlast, show p₂.acknowledge.weights = p₂.weights from rfl,
    (Preconditioner.update_shares hkind₁ hopen₁ hupdate).1, hsizes₁, hblocks, hsums₁,
    Preconditioner.shareWeights_map fun id _ => σ₁.chronicle.residualSum_nonneg d id]

open Session (plain run_started)

/-- Two blocks of one value each, weighted by their summed residuals. -/
noncomputable def summedResiduals : Config ℝ :=
  { plain with dataIds := [0, 1], preconditioner := { kind := .residualSum } }

/-- The first window has residuals of norms 0 and 0 and then 1 and 1, and the next one begins with 3
and 1: the weights are those of the sums 4 and 2, not of 1 and 1. -/
theorem weights_of_summed_residuals_second_window : ∃ (σ : Session ℝ)
    (reply : Reply (QuasiNewton ℝ) ℝ),
    (Session.new summedResiduals).run [.start (pair (0, 0) (0, 0)), .perform (pair (0, 0) (0, 0)),
      .perform (pair (1, 1) (0, 0)), .converged (pair (1, 1) (1, 1))] = .ok σ ∧
    σ.scheme.perform (pair (4, 2) (1, 1)) = .ok reply ∧ reply.answer = .ok () ∧
    reply.scheme.preconditioner.weights = [3 / 2, 3] := by
  have hfits : ∀ c ∈ ([.perform (pair (0, 0) (0, 0)), .perform (pair (1, 1) (0, 0)),
      .converged (pair (1, 1) (1, 1))] : List (Call ℝ)),
      c.Fits ((Chronicle.empty summedResiduals).note (.start (pair (0, 0) (0, 0))) true) :=
    List.forall_mem_cons.2 ⟨fitting_pair rfl rfl rfl _ _, List.forall_mem_cons.2
      ⟨fitting_pair rfl rfl rfl _ _, List.forall_mem_singleton.2 trivial⟩⟩
  obtain ⟨s, hrun, hexact, hmarks⟩ := run_started summedResiduals (by decide) hfits
  have hfit := hexact.perform_fitting rfl (fitting_pair rfl rfl rfl (4, 2) (1, 1))
  obtain ⟨reply, hperform, hanswer, -⟩ := hfit
  have honce : RenewedOnce ((Session.new summedResiduals).marks _) := hmarks ▸ renewedOnce_fitting _
  have hopen := Bool.eq_false_iff.2 fun hfrozen => by
    obtain ⟨limit, hlimit, -⟩ := (((Session.run_traced hrun).unbroken honce).frozen_iff
      (by dsimp only; decide)).1 hfrozen
    cases hlimit
  have hkind : summedResiduals.preconditioner.kind = .residualSum := rfl
  have hweights := weights_of_summed_residuals hkind hrun honce hperform hanswer rfl
    (by dsimp only; decide) hopen
  refine ⟨_, reply, hrun, hperform, hanswer, hweights.trans ?_⟩
  dsimp only
  generalize hχ : List.foldl _ _ _ = χ
  have hlater : χ.later 2 = [1] := hχ ▸ by decide
  have hdata : χ.data 1 = pair (1, 1) (0, 0) := hχ ▸ rfl
  have hvisits : χ.visits.length = 2 := hχ ▸ rfl
  have hsum : χ.residualSum (pair (4, 2) (1, 1)) 0 = 4 ∧
      χ.residualSum (pair (4, 2) (1, 1)) 1 = 2 := by
    rw [Chronicle.residualSum, Chronicle.residualSum, Chronicle.carried, Chronicle.carried, hvisits,
      hlater, List.map_singleton, List.map_singleton, List.sum_singleton, List.sum_singleton, hdata]
    show Vec.norm [(1 : ℝ) - 0] + Vec.norm [(4 : ℝ) - 1] = 4 ∧
      Vec.norm [(1 : ℝ) - 0] + Vec.norm [(2 : ℝ) - 1] = 2
    simp only [norm_singleton]
    norm_num
  rw [show χ.sizes = [1, 1] from hχ ▸ rfl, show summedResiduals.dataIds = [0, 1] from rfl]
  simp only [List.map_cons, List.map_nil, List.sum_cons, List.sum_nil, hsum.1, hsum.2]
  unfold vanishing
  norm_num [Vec.spread]

end Acceleration

end Cosimulation

import Cosimulation.Proofs.Aitken.Restarts

/-!
# Aitken relaxation of an affine solver

If a solver multiplies its input by one number and adds a vector, successive residuals are multiples
of each other: relaxing by `ω` changes a residual by `(m - 1) ω` times itself. The secant through
two of them then meets zero at the factor `1 / (1 - m)`, whatever `ω` was, and relaxing by that
factor leads to the fixed point (`perform_affine`).

The first call of the window may have come with any history, so `ω` may be of either sign. What the
argument takes from the record is that the scheme compares with the residual of that call, and that
the call left its blocks relaxed by its own factor (`Step.Relaxed`).
-/

namespace Cosimulation.Acceleration.Aitken

open scoped RealInnerProductSpace

variable {n : Nat} {m ω ω' c : ℝ} {b last r : Vec ℝ} {ids : List DataId} {d : DataMap ℝ}

/-- The secant through a residual and the one before it, if it changed by a multiple of that. -/
theorem secantFactor_of_multiple (hlast : last.length = n) (hr : r.length = n)
    (hmultiple : euclid n r = euclid n last + c • euclid n last)
    (hlong : vanishing * vanishing < (r.sub last).dot (r.sub last))
    (h : secantFactor ω last r = .ok ω') : c ≠ 0 ∧ ω' = -ω / c := by
  obtain ⟨change, hchange, h⟩ := bind_ok h
  obtain ⟨-, rfl⟩ := Vec.minus_ok_iff.1 hchange
  obtain rfl := Except.ok.inj h
  have hl : (r.sub last).length = n := (Vec.length_sub (hr.trans hlast.symm)).trans hlast
  have hmoved : euclid n (r.sub last) = c • euclid n last := by
    rw [euclid_sub hr hlast, hmultiple, add_sub_cancel_left]
  have hself : (r.sub last).dot (r.sub last) = c * (c * ⟪euclid n last, euclid n last⟫) := by
    rw [dot_eq_inner hl hl, hmoved, real_inner_smul_left, real_inner_smul_right]
  have hcross : last.dot (r.sub last) = c * ⟪euclid n last, euclid n last⟫ := by
    rw [dot_eq_inner hlast hl, hmoved, real_inner_smul_right]
  have hpos : c * (c * ⟪euclid n last, euclid n last⟫) ≠ 0 :=
    hself ▸ (lt_of_le_of_lt (mul_self_nonneg vanishing) hlong).ne'
  rw [if_pos hlong, hself, hcross]
  exact ⟨left_ne_zero_of_mul hpos, mul_div_mul_right _ _ (right_ne_zero_of_mul hpos)⟩

/-- The residual of an affine solver. -/
theorem euclid_residual_affine (hd : ∀ id ∈ ids, d.Paired id) (hl : (d.stacked ids).length = n)
    (hb : b.length = n) (h : d.stacked ids = Vec.axpy m (d.stackedOld ids) b) :
    euclid n (residualOf ids d) = (m - 1) • euclid n (d.stackedOld ids) + euclid n b := by
  have hold : (d.stackedOld ids).length = n := (DataMap.length_stackedOld hd).trans hl
  rw [residualOf, euclid_sub hl hold, h, euclid_axpy m hold hb, sub_smul, one_smul]
  abel

/-- Relaxing the data of an affine solver by `1 / (1 - m)` leads to its fixed point. -/
theorem Step.Relaxed.fixed {e : Step ℝ} (h : e.Relaxed ids)
    (hb : b.length = (e.given.stacked ids).length)
    (haffine : e.given.stacked ids = Vec.axpy m (e.given.stackedOld ids) b) (hm : m ≠ 1)
    (hfactor : e.factor = 1 / (1 - m)) : e.left.stacked ids = b.map (· / (1 - m)) := by
  have hold : (e.given.stackedOld ids).length = b.length :=
    (DataMap.length_stackedOld h.paired).trans hb.symm
  have hr : (residualOf ids e.given).length = b.length :=
    (length_residualOf h.paired).trans hb.symm
  have hm' : 1 - m ≠ 0 := sub_ne_zero.2 hm.symm
  have hback : 1 / (1 - m) * (m - 1) = -1 := by
    rw [← neg_sub 1 m, mul_neg, one_div_mul_cancel hm']
  rw [h.stacked]
  refine euclid_injective ((Vec.length_axpy (hr.trans hold.symm) _).trans hold)
    (List.length_map _) ?_
  rw [euclid_axpy _ hr hold, euclid_residual_affine h.paired hb.symm rfl haffine, euclid_div,
    hfactor, smul_add, smul_smul, hback, neg_one_smul, one_div]
  abel

/-- After any run, let the values of two successive calls of a window be `m` times the previous ones
plus `b`, the previous values of the second call be those that the first one left, and the residual
change noticeably. If the first of these calls is the first of its window, the second one uses the
factor `1 / (1 - m)` and leaves the configured blocks at the fixed point `b / (1 - m)`. -/
theorem perform_affine {config : Config ℝ} {fresh : Aitken ℝ} {calls : List (Call ℝ)}
    {o : Observed ℝ} {e : Step ℝ} (hbuild : Scheme.build config = .ok (.aitken fresh))
    (hrun : Observed.run ⟨fresh, {}⟩ calls = .ok o) (hwindow : o.record.window = [e])
    (hb : b.length = (e.given.stacked config.dataIds).length)
    (hfirst : e.given.stacked config.dataIds = Vec.axpy m (e.given.stackedOld config.dataIds) b)
    (hpaired : ∀ id ∈ d.keys ++ config.dataIds, d.Paired id)
    (hold : ∀ id ∈ config.dataIds, d.oldOf id = e.left.oldOf id)
    (hsecond : d.stacked config.dataIds = Vec.axpy m (d.stackedOld config.dataIds) b)
    (hlong : vanishing * vanishing <
      ((residualOf config.dataIds d).sub (residualOf config.dataIds e.given)).dot
        ((residualOf config.dataIds d).sub (residualOf config.dataIds e.given))) :
    m ≠ 1 ∧ ∃ reply, o.scheme.perform d = .ok reply ∧ reply.answer = .ok () ∧
      reply.scheme.factor = 1 / (1 - m) ∧
      reply.data.stacked config.dataIds = b.map (· / (1 - m)) ∧
      reply.data.stackedOld config.dataIds = b.map (· / (1 - m)) := by
  have hkept := Observed.Kept.run hbuild hrun
  have hids : fresh.dataIds = config.dataIds := by rw [(Scheme.build_eq_aitken hbuild).2]
  rw [← hids] at hb hfirst hpaired hold hsecond hlong ⊢
  have hlast : o.record.last? = some e := Record.last?_of_window (by rw [hwindow]; rfl)
  have hstep := hkept.relaxed e hlast
  have hconfigured := (List.forall_mem_append.1 hpaired).2
  -- every vector has the length of the offset
  have hgiven : (e.given.stacked fresh.dataIds).length = b.length := hb.symm
  have hgivenOld := (DataMap.length_stackedOld hstep.paired).trans hgiven
  have hgivenResidual := (length_residualOf hstep.paired).trans hgiven
  have hstackedOld : d.stackedOld fresh.dataIds = e.left.stacked fresh.dataIds :=
    (List.flatMap_congr hold).trans hstep.stored
  have hlengthOld : (d.stackedOld fresh.dataIds).length = b.length := by
    rw [hstackedOld, hstep.stacked, Vec.length_axpy (hgivenResidual.trans hgivenOld.symm),
      hgivenOld]
  have hlength := (DataMap.length_stackedOld hconfigured).symm.trans hlengthOld
  have hresidual := (length_residualOf hconfigured).trans hlength
  -- the second residual is a multiple of the first one
  have hr₀ := euclid_residual_affine hstep.paired hgiven rfl hfirst
  have hr₁ := euclid_residual_affine hconfigured hlength rfl hsecond
  have hx₁ : euclid b.length (d.stackedOld fresh.dataIds) =
      e.factor • euclid b.length (residualOf fresh.dataIds e.given) +
        euclid b.length (e.given.stackedOld fresh.dataIds) := by
    rw [hstackedOld, hstep.stacked, euclid_axpy _ hgivenResidual hgivenOld]
  have hmultiple : euclid b.length (residualOf fresh.dataIds d) =
      euclid b.length (residualOf fresh.dataIds e.given) +
        ((m - 1) * e.factor) • euclid b.length (residualOf fresh.dataIds e.given) := by
    rw [hr₁, hx₁, smul_add, smul_smul, add_assoc, ← hr₀]
    exact add_comm _ _
  -- the call is the second of its window
  obtain ⟨ω, relaxed, stored, -, -, -, hperform⟩ := perform_of_paired (hkept.dataIds ▸ hpaired)
  obtain ⟨hanswered, -⟩ := hkept.perform hperform rfl
  have hgoes : ¬ o.record.Resized fresh.dataIds d := by
    rintro ⟨e', he', hne⟩
    obtain rfl := Option.some.inj (hlast.symm.trans he')
    exact hne (hgiven.trans hlength.symm)
  have hlater := hanswered.later e (by rw [Record.meet_of_not_resized hgoes, hwindow]; rfl)
  obtain ⟨hc, hω⟩ := secantFactor_of_multiple hgivenResidual hresidual hmultiple hlong hlater
  have hm : m - 1 ≠ 0 := left_ne_zero_of_mul hc
  have hm' : 1 - m ≠ 0 := sub_ne_zero.2 (sub_ne_zero.1 hm).symm
  have hfactor : ω = 1 / (1 - m) := by
    refine hω.trans ((div_eq_div_iff hc hm').2 ?_)
    ring
  have hfixed := hanswered.relaxed.fixed hlength.symm hsecond (sub_ne_zero.1 hm) hfactor
  exact ⟨sub_ne_zero.1 hm, _, hperform, rfl, hfactor, hfixed, hanswered.relaxed.stored.trans hfixed⟩

open Session (single)

/-- Twice the previous value plus one, relaxed by one half and then by the factor that leads to the
fixed point. -/
theorem perform_affine_doubling : ∃ o reply,
    Scheme.build (oneBlock (1 / 2)) = .ok (.aitken (ofOneBlock (1 / 2))) ∧
    Observed.run ⟨ofOneBlock (1 / 2), {}⟩ [.perform (single 1 0)] = .ok o ∧
    o.scheme.perform (single 2 (1 / 2)) = .ok reply ∧ reply.answer = .ok () ∧
    reply.scheme.factor = 1 / (1 - 2) ∧ reply.data.stacked [0] = [1 / (1 - 2)] := by
  obtain ⟨o, e, hrun, hwindow, hgiven, hleft⟩ : ∃ o e,
      Observed.run ⟨ofOneBlock (1 / 2), {}⟩ [.perform (single 1 0)] = .ok o ∧
      o.record.window = [e] ∧ e.given = single 1 0 ∧
      e.left.oldOf 0 = [cappedFactor (1 / 2) (1 / 2) * (1 - 0) + 0] :=
    ⟨_, _, rfl, rfl, rfl, rfl⟩
  have hhalf : cappedFactor (1 / 2 : ℝ) (1 / 2) = 1 / 2 := by
    show (if (1 / 2 : ℝ) < 0 then -1 else 1) * (if |(1 / 2 : ℝ)| < 1 / 2 then |(1 / 2 : ℝ)|
      else if (1 / 2 : ℝ) == 1 / 2 then 1 / 2 else |(1 / 2 : ℝ)|) = 1 / 2
    norm_num
  have hstart : Vec.axpy 2 [(0 : ℝ)] [1] = [1] ∧ Vec.axpy 2 [(1 / 2 : ℝ)] [1] = [2] := by
    norm_num [Vec.axpy]
  have hpaired : ∀ id ∈ (single 2 (1 / 2)).keys ++ (oneBlock (1 / 2)).dataIds,
      (single 2 (1 / 2)).Paired id := by
    intro id hid
    have hids : id ∈ [0, 0] := hid
    obtain rfl : id = 0 := by simpa using hids
    exact ⟨_, rfl, rfl⟩
  have hold : ∀ id ∈ (oneBlock (1 / 2)).dataIds, (single 2 (1 / 2)).oldOf id = e.left.oldOf id := by
    intro id hid
    obtain rfl := List.mem_singleton.1 hid
    rw [hleft, hhalf, sub_zero, mul_one, add_zero]
    rfl
  have hlong : vanishing * vanishing <
      ((residualOf [0] (single 2 (1 / 2))).sub (residualOf [0] e.given)).dot
        ((residualOf [0] (single 2 (1 / 2))).sub (residualOf [0] e.given)) := by
    rw [hgiven]
    show vanishing * vanishing < Vec.dot [2 - 1 / 2 - (1 - 0)] [2 - 1 / 2 - (1 - 0)]
    norm_num [vanishing, Vec.dot, Vec.sum]
  obtain ⟨-, reply, hp, hanswer, hfactor, hfixed, -⟩ :=
    perform_affine (m := 2) (b := [1]) build_halving hrun hwindow (hgiven ▸ rfl)
      (hgiven ▸ hstart.1.symm) hpaired hold hstart.2.symm hlong
  exact ⟨o, reply, build_halving, hrun, hp, hanswer, hfactor, hfixed⟩

end Cosimulation.Acceleration.Aitken

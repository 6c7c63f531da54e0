import Mathlib.Analysis.InnerProductSpace.PiL2
import Cosimulation.Proofs.QuasiNewton.Fitting

/-!
# Affine solvers

Let every call of a run bring values that an affine solver made of the previous ones, with one
matrix for the whole run and one offset for each window (`AffineSolver.Drives`). Then the moves of a
column are related: the matrix takes what the iterate moved by, less what the residual moved by, to
what the iterate moved by (`Drives.linear_move`). A column that straddled two windows would not be
so related, and neither would moves of two different pairs of calls.

`perform_on_affine` draws the conclusion for a quasi-Newton step. The residual that the solver has
at the result is the matrix times the residual of the call plus the combination of its moves; the
coefficients make that sum shortest in the weighted norm; and where the residual lies in the span of
its moves the result is a fixed point of the solver.
-/

namespace Cosimulation

/-! ## Combinations and weights in space -/

section
variable {n : Nat}

theorem euclid_plusCombination : ∀ {a : List ℝ} {vs : List (Vec ℝ)} {w u : Vec ℝ}, w.length = n →
    (∀ v ∈ vs, v.length = n) → w.plusCombination a vs = .ok u →
      u.length = n ∧ euclid n u = euclid n w + combine a (vs.map (euclid n)) := by
  intro a
  induction a with
  | nil =>
    intro vs w u hw _ h
    obtain rfl := Except.ok.inj h
    exact ⟨hw, (add_zero _).symm⟩
  | cons x a ih =>
    intro vs w u hw hvs h
    cases vs with
    | nil =>
      obtain rfl := Except.ok.inj h
      exact ⟨hw, (add_zero _).symm⟩
    | cons v vs =>
      obtain ⟨w', hw', h⟩ := bind_ok h
      have hv := hvs v List.mem_cons_self
      obtain ⟨-, rfl⟩ := Vec.plusScaled_ok_iff.1 hw'
      obtain ⟨hu, heq⟩ := ih ((Vec.length_axpy (hv.trans hw.symm) x).trans hw)
        (fun y hy => hvs y (List.mem_cons_of_mem _ hy)) h
      refine ⟨hu, ?_⟩
      rw [heq, euclid_axpy x hv hw, List.map_cons, combine_cons]
      abel

/-- Each coordinate times its weight. -/
noncomputable def weigh (n : Nat) (weights : Vec ℝ) :
    EuclideanSpace ℝ (Fin n) →ₗ[ℝ] EuclideanSpace ℝ (Fin n) :=
  (Matrix.diagonal fun i : Fin n => weights[(i : Nat)]?.getD 0).toEuclideanLin

theorem euclid_weigh {v weights : Vec ℝ} (hv : v.length = n) (hw : weights.length = n) :
    euclid n (v.zipWith (· * ·) weights) = weigh n weights (euclid n v) := by
  ext i
  rw [euclid_apply, getD_zipWith (· * ·) hv hw]
  rw [weigh, Matrix.ofLp_toLpLin, Matrix.toLin'_apply, Matrix.mulVec_diagonal]
  exact mul_comm _ _

/-- Combinations with the same coefficients, entry by entry. -/
theorem combine_map_sub {ι E : Type} [NormedAddCommGroup E] [InnerProductSpace ℝ E] (f g : ι → E) :
    ∀ (a : List ℝ) (is : List ι),
      combine a (is.map f) - combine a (is.map g) = combine a (is.map fun i => f i - g i) := by
  intro a
  induction a with
  | nil => intro is; exact sub_self 0
  | cons x a ih =>
    intro is
    cases is with
    | nil => exact sub_self 0
    | cons i is =>
      rw [List.map_cons, List.map_cons, List.map_cons, combine_cons, combine_cons, combine_cons,
        ← ih is, smul_sub]
      abel

end

namespace Acceleration

/-! ## The values after a step -/

namespace QuasiNewton

variable {s : QuasiNewton ℝ}

/-- Only the blocks that are asked for move. -/
theorem find?_moveSecondary {a : List ℝ} : ∀ {ids : List DataId} {data data' : DataMap ℝ},
    s.moveSecondary a data ids = .ok data' → ∀ j ∉ ids, data'.find? j = data.find? j := by
  intro ids
  induction ids with
  | nil =>
    intro data data' h j _
    rw [Except.ok.inj h]
  | cons id ids ih =>
    intro data data' h j hj
    rw [List.mem_cons, not_or] at hj
    obtain ⟨data₁, h₁, h⟩ := bind_ok h
    obtain ⟨b, b', -, -, hfind⟩ := DataMap.modify_ok h₁
    rw [ih h j hj.2, hfind, if_neg hj.1]

/-- The primary blocks move along the combination of the iterate moves. -/
theorem stacked_move {n : Nat} {data data' : DataMap ℝ} {iterate : Vec ℝ} {a : List ℝ}
    (hnodup : s.config.dataIds.Nodup) (hsep : ∀ id ∈ s.secondaryIds, id ∉ s.config.dataIds)
    (hi : iterate.length = n) (hd : (data.stacked s.config.dataIds).length = n)
    (hcols : ∀ x ∈ s.history.iterates, x.length = n) (h : s.move data iterate a = .ok data') :
    (data'.stacked s.config.dataIds).length = n ∧ euclid n (data'.stacked s.config.dataIds) =
      euclid n iterate + combine a (s.history.iterates.map (euclid n)) := by
  obtain ⟨update, hu, h⟩ := bind_ok h
  obtain ⟨moved, hm, h⟩ := bind_ok h
  obtain ⟨hul, hue⟩ := euclid_plusCombination (List.length_replicate.trans hi) hcols hu
  have hlen : (iterate.add update).length = n := (Vec.length_add (hi.trans hul.symm)).trans hul
  have hmoved := DataMap.stacked_unstack hnodup (hd.trans hlen.symm) hm
  -- no primary block is a secondary one
  have hkeep : data'.stacked s.config.dataIds = moved.stacked s.config.dataIds :=
    congrArg List.flatten (List.map_congr_left fun id hid =>
      DataMap.valuesOf_congr (find?_moveSecondary h id fun hs => hsep id hs hid))
  rw [hkeep, hmoved]
  refine ⟨hlen, ?_⟩
  rw [euclid_add hi hul, hue, euclid_zeros, zero_add]

/-- Coefficients solve the weighted problem. -/
theorem solve_eq {residual : Vec ℝ} {a : List ℝ} (h : s.solve residual = .ok (some a)) :
    ∃ scaled, s.preconditioner.apply residual = .ok scaled ∧
      s.factorization.solve scaled = .ok (some a) := by
  unfold solve at h
  split at h
  next => cases h
  next => exact bind_ok h

/-- A step leaves the primary blocks where the combination of the iterate moves takes them, in both
iterates. -/
theorem stacked_respond {n : Nat} {data data' : DataMap ℝ} {now : Snapshot ℝ} {a : List ℝ}
    (hnodup : s.config.dataIds.Nodup) (hsep : ∀ id ∈ s.secondaryIds, id ∉ s.config.dataIds)
    (hi : now.iterate.length = n) (hd : (data.stacked s.config.dataIds).length = n)
    (hcols : ∀ x ∈ s.history.iterates, x.length = n)
    (h : s.respond data now = .ok (some a, data')) :
    (data'.stacked s.config.dataIds).length = n ∧
      euclid n (data'.stacked s.config.dataIds) =
        euclid n now.iterate + combine a (s.history.iterates.map (euclid n)) ∧
      data'.stackedOld s.config.dataIds = data'.stacked s.config.dataIds := by
  obtain ⟨moved, -, hmove, hstore⟩ := respond_eq h
  obtain ⟨hstored, hold⟩ := DataMap.store_ok hstore
  obtain ⟨hxl, hx⟩ := stacked_move hnodup hsep hi hd hcols hmove
  have hkeep : data'.stacked s.config.dataIds = moved.stacked s.config.dataIds :=
    congrArg List.flatten (List.map_congr_left fun j _ => hstored j)
  refine ⟨hkeep ▸ hxl, hkeep ▸ hx, ?_⟩
  exact congrArg List.flatten (List.map_congr_left fun j hj =>
    hold j (.inl (List.mem_append_left _ hj)))

end QuasiNewton

/-! ## The solver -/

/-- A solver that is affine in the previous values, with an offset for each window. -/
structure AffineSolver (n : Nat) where
  matrix : Matrix (Fin n) (Fin n) ℝ
  offset : Nat → EuclideanSpace ℝ (Fin n)

namespace AffineSolver

variable {n : Nat} (S : AffineSolver n)

/-- What the matrix makes of a vector. -/
noncomputable def linear : EuclideanSpace ℝ (Fin n) →ₗ[ℝ] EuclideanSpace ℝ (Fin n) :=
  S.matrix.toEuclideanLin

/-- The values in a window, from the previous ones. -/
noncomputable def values (window : Nat) (x : EuclideanSpace ℝ (Fin n)) :
    EuclideanSpace ℝ (Fin n) := S.linear x + S.offset window

/-- What the values differ by from the previous ones; nothing at a fixed point. -/
noncomputable def residual (window : Nat) (x : EuclideanSpace ℝ (Fin n)) :
    EuclideanSpace ℝ (Fin n) := S.values window x - x

/-- The primary values of every visit are those of the solver. -/
def Drives (χ : Chronicle ℝ) : Prop :=
  ∀ i < χ.visits.length, (χ.iterate i).length = n ∧ euclid n (χ.iterate i) =
    S.values (χ.windowOf i) (euclid n ((χ.data i).stackedOld χ.dataIds))

variable {S} {χ : Chronicle ℝ}

theorem euclid_residual {i : Nat} (hp : ∀ id ∈ χ.dataIds, (χ.data i).Paired id)
    (hl : (χ.iterate i).length = n) : euclid n (χ.residual i) =
      euclid n (χ.iterate i) - euclid n ((χ.data i).stackedOld χ.dataIds) :=
  euclid_sub hl ((DataMap.length_stackedOld hp).trans hl)

/-- The matrix takes the move of the previous values to the move of the values. -/
theorem Drives.linear_move (h : S.Drives χ) {i : Nat} (hc : χ.Continues i) :
    S.linear (euclid n (χ.iterateMove i) - euclid n (χ.residualMove i)) =
      euclid n (χ.iterateMove i) := by
  obtain ⟨hl, hv⟩ := h i hc.visited
  obtain ⟨hl', hv'⟩ := h (i - 1) (Nat.lt_of_le_of_lt (Nat.sub_le i 1) hc.visited)
  have hr : (χ.residual i).length = n := (Chronicle.length_residual hc.paired.1).trans hl
  rw [Chronicle.iterateMove, Chronicle.residualMove, euclid_sub hl hl',
    euclid_sub hr (hc.length_residual_prev.trans hr), euclid_residual hc.paired.1 hl,
    euclid_residual hc.paired.2 hl']
  have hmoves (X X' x x' : EuclideanSpace ℝ (Fin n)) : X - X' - (X - x - (X' - x')) = x - x' := by
    abel
  -- both calls belong to one window, so the offset cancels
  rw [hmoves, hv, hv', ← hc.window, values, values, map_sub]
  abel

/-- The residual of the solver after a move along the columns. -/
theorem Drives.residual_add (h : S.Drives χ) {ks : List Nat} (hk : ∀ i ∈ ks, χ.Continues i)
    {i : Nat} (hi : i < χ.visits.length) (hp : ∀ id ∈ χ.dataIds, (χ.data i).Paired id)
    (a : List ℝ) :
    S.residual (χ.windowOf i)
        (euclid n (χ.iterate i) + combine a (ks.map fun k => euclid n (χ.iterateMove k))) =
      S.linear (euclid n (χ.residual i) +
        combine a (ks.map fun k => euclid n (χ.residualMove k))) := by
  obtain ⟨hl, hv⟩ := h i hi
  -- the matrix takes the move of the previous values to the move of the values, in combination too
  have hmove : S.linear (combine a (ks.map fun k => euclid n (χ.iterateMove k)) -
      combine a (ks.map fun k => euclid n (χ.residualMove k))) =
        combine a (ks.map fun k => euclid n (χ.iterateMove k)) := by
    rw [combine_map_sub, map_combine, List.map_map]
    exact congrArg (combine a) (List.map_congr_left fun k hk' => h.linear_move (hk k hk'))
  rw [map_sub, sub_eq_iff_eq_add] at hmove
  rw [residual, values, map_add, map_add, hmove, euclid_residual hp hl, map_sub]
  nth_rewrite 2 [hv]
  rw [values]
  abel

end AffineSolver

/-! ## One step -/

/-- The residual of the last visit plus a combination of residual moves. -/
noncomputable def Chronicle.combined (χ : Chronicle ℝ) (n : Nat) (ks : List Nat) (a : List ℝ) :
    EuclideanSpace ℝ (Fin n) :=
  euclid n (χ.residual (χ.visits.length - 1)) +
    combine a (ks.map fun k => euclid n (χ.residualMove k))

/-- What a step with the coefficients `a`, taken at the last visit, makes of an affine solver. The
columns stand for the visits `ks`, and `x` are the values that the step leaves. -/
structure AffineSolver.Stepped {n : Nat} (S : AffineSolver n) (σ : Session ℝ) (ks : List Nat)
    (a : List ℝ) (x : Vec ℝ) : Prop where
  columns : σ.Weighted ks
  coefficients : a.length = ks.length
  length : x.length = n
  residual : S.residual σ.chronicle.window (euclid n x) = S.linear (σ.chronicle.combined n ks a)
  /-- No other coefficients make the combined residual shorter in the weighted norm. -/
  least : ∀ b : List ℝ,
    ‖weigh n σ.scheme.preconditioner.weights (σ.chronicle.combined n ks a)‖ ≤
      ‖weigh n σ.scheme.preconditioner.weights (σ.chronicle.combined n ks b)‖
  /-- A residual in the span of the columns leads to a fixed point. -/
  fixed : euclid n (σ.chronicle.residual (σ.chronicle.visits.length - 1)) ∈
      spanned (ks.map fun k => euclid n (σ.chronicle.residualMove k)) →
    S.values σ.chronicle.window (euclid n x) = euclid n x

open Factorization

/-- The coefficients of a weighted problem. They make the unweighted combination vanish where some
coefficients do. -/
theorem least_of_solve {n : Nat} {f : Factorization ℝ} {weights r : Vec ℝ} {moves : List (Vec ℝ)}
    {a : List ℝ} (hw : weights.length = n) (hr : r.length = n) (hm : ∀ v ∈ moves, v.length = n)
    (hf : Factorizes n f (moves.map fun v => v.zipWith (· * ·) weights))
    (ha : f.solve (r.zipWith (· * ·) weights) = .ok (some a)) :
    a.length = moves.length ∧
    (∀ b : List ℝ, ‖weigh n weights (euclid n r + combine a (moves.map (euclid n)))‖ ≤
      ‖weigh n weights (euclid n r + combine b (moves.map (euclid n)))‖) ∧
    (euclid n r ∈ spanned (moves.map (euclid n)) →
      euclid n r + combine a (moves.map (euclid n)) = 0) := by
  have hrl : (r.zipWith (· * ·) weights).length = n := by
    rw [List.length_zipWith, hr, hw, Nat.min_self]
  have hcols : (moves.map fun v => v.zipWith (· * ·) weights).map (euclid n) =
      (moves.map (euclid n)).map (weigh n weights) := by
    rw [List.map_map, List.map_map]
    exact List.map_congr_left fun v hv => euclid_weigh (hm v hv) hw
  have hsum (b : List ℝ) : weigh n weights (euclid n r + combine b (moves.map (euclid n))) =
      euclid n (r.zipWith (· * ·) weights) +
        combine b ((moves.map fun v => v.zipWith (· * ·) weights).map (euclid n)) := by
    rw [map_add, map_combine, hcols, euclid_weigh hr hw]
  obtain ⟨hal, hleast⟩ := hf.solve_least hrl ha
  rw [List.length_map] at hal
  have hmin : ∀ b : List ℝ, ‖weigh n weights (euclid n r + combine a (moves.map (euclid n)))‖ ≤
      ‖weigh n weights (euclid n r + combine b (moves.map (euclid n)))‖ := fun b => by
    rw [hsum, hsum]
    exact hleast b
  refine ⟨hal, hmin, fun hmem => ?_⟩
  -- some coefficients make the sum vanish, so the shortest weighted sum is zero
  obtain ⟨b, hbl, hb⟩ := exists_combine (Submodule.neg_mem _ hmem)
  rw [List.length_map] at hbl
  have hzero : euclid n r + combine b (moves.map (euclid n)) = 0 := by rw [hb, add_neg_cancel]
  have hweighted : weigh n weights (euclid n r + combine a (moves.map (euclid n))) = 0 := by
    have hle := hmin b
    rw [hzero, map_zero, norm_zero] at hle
    exact norm_le_zero_iff.1 hle
  -- both coefficients solve the weighted problem, which has one solution
  have heq : a = b := by
    refine hf.combine_injective (hal.trans (List.length_map _).symm)
      (hbl.trans (List.length_map _).symm) ?_
    have hb' := hsum b
    rw [hzero, map_zero] at hb'
    rw [hsum] at hweighted
    exact add_left_cancel (hweighted.trans hb')
  rw [heq]
  exact hzero

/-- Coefficients for the last residual make its combination with the residual moves shortest. -/
theorem Session.Weighted.least {σ : Session ℝ} {n : Nat} {ks : List Nat} (hw : σ.Weighted ks)
    (hweights : σ.scheme.preconditioner.weights.length = n)
    (hf : Factorizes n σ.scheme.factorization σ.scheme.history.residuals) {a : List ℝ}
    (hr : (σ.chronicle.residual (σ.chronicle.visits.length - 1)).length = n)
    (ha : σ.scheme.factorization.solve
      ((σ.chronicle.residual (σ.chronicle.visits.length - 1)).zipWith (· * ·)
        σ.scheme.preconditioner.weights) = .ok (some a)) :
    a.length = ks.length ∧
    (∀ b : List ℝ,
      ‖weigh n σ.scheme.preconditioner.weights (σ.chronicle.combined n ks a)‖ ≤
        ‖weigh n σ.scheme.preconditioner.weights (σ.chronicle.combined n ks b)‖) ∧
    (euclid n (σ.chronicle.residual (σ.chronicle.visits.length - 1)) ∈
        spanned (ks.map fun k => euclid n (σ.chronicle.residualMove k)) →
      σ.chronicle.combined n ks a = 0) := by
  have hmoves : Factorizes n σ.scheme.factorization ((ks.map σ.chronicle.residualMove).map fun v =>
      v.zipWith (· * ·) σ.scheme.preconditioner.weights) := by
    rw [List.map_map]
    exact hw.weighted ▸ hf
  obtain ⟨hal, hleast, hfixed⟩ := least_of_solve hweights hr (fun v hv => by
    obtain ⟨k, hk, rfl⟩ := List.mem_map.1 hv
    rw [(hw.continues k hk).length_residualMove, (hw.weights k hk).1]
    exact hweights) hmoves ha
  rw [List.length_map] at hal
  rw [List.map_map] at hleast hfixed
  exact ⟨hal, hleast, hfixed⟩

theorem step_on_affine {n : Nat} (S : AffineSolver n) {σ : Session ℝ} (h : σ.Exact)
    (hst : σ.chronicle.started = true) (hnodup : σ.chronicle.dataIds.Nodup) {d d' : DataMap ℝ}
    {s' : QuasiNewton ℝ} {a : List ℝ} (hfit : σ.chronicle.Fitting d)
    (hs : σ.scheme.step d (d.stacked σ.chronicle.dataIds) (d.stackedOld σ.chronicle.dataIds) =
      .ok (s', d')) (ha : s'.coefficients = some a) (hdrives : S.Drives (σ.chronicle.visit d)) :
    ∃ ks, S.Stepped ⟨s', σ.chronicle.visit d⟩ ks a (d'.stacked σ.chronicle.dataIds) ∧
      d'.stackedOld σ.chronicle.dataIds = d'.stacked σ.chronicle.dataIds := by
  -- the step is one that keeps the invariant
  obtain ⟨s₂, d₂, hs₂, hex⟩ := h.step_total hst hfit
  obtain ⟨rfl, rfl⟩ := Prod.mk.inj (Except.ok.inj (hs₂.symm.trans hs))
  obtain ⟨ks, hw⟩ := hex.weighted
  have he := hex.exact hst
  have hf := hex.sound.follows
  obtain ⟨s₁, coefficients, -, -, hresp, rfl⟩ := QuasiNewton.step_eq hs
  obtain rfl : coefficients = some a := ha
  have hids : s₁.config.dataIds = σ.chronicle.dataIds := hf.dataIds
  have hsec : s₁.secondaryIds = σ.chronicle.secondaryIds := hf.secondaryIds
  have hvisited : σ.chronicle.visits.length < (σ.chronicle.visit d).visits.length := by
    rw [Chronicle.length_visits_visit]
    exact Nat.lt_succ_self _
  have hlast : (σ.chronicle.visit d).visits.length - 1 = σ.chronicle.visits.length := by
    rw [Chronicle.length_visits_visit, Nat.add_sub_cancel]
  have hresidual : (σ.chronicle.visit d).residual ((σ.chronicle.visit d).visits.length - 1) =
      (d.stacked σ.chronicle.dataIds).sub (d.stackedOld σ.chronicle.dataIds) := by
    rw [hlast, Chronicle.residual_visit_length]
  obtain rfl : σ.chronicle.sizes.sum = n := by
    have hl := (hdrives _ hvisited).1
    rw [Chronicle.iterate_visit_length] at hl
    exact hfit.length_stacked.symm.trans hl
  -- the coefficients
  obtain ⟨moved, hsolve, -, -⟩ := QuasiNewton.respond_eq hresp
  obtain ⟨scaled, happ, hsolve⟩ := QuasiNewton.solve_eq hsolve
  obtain rfl := Except.ok.inj (happ.symm.trans (he.fits.apply_total hfit.length_residual))
  obtain ⟨hal, hleast, hfixed⟩ := hw.least he.fits.weights he.factorizes
    (hresidual ▸ hfit.length_residual) (hresidual ▸ hsolve)
  -- the values
  obtain ⟨hxl, hx, hold⟩ := QuasiNewton.stacked_respond (s := s₁) (hids ▸ hnodup)
    (by rw [hids, hsec]; exact hf.separate) hfit.length_stacked (hids ▸ hfit.length_stacked)
    he.iterate_length hresp
  rw [hids] at hxl hx hold
  have hadd := hdrives.residual_add hw.continues hvisited (fun id hid => by
    rw [Chronicle.data_visit_length]
    exact (hfit id (List.mem_append_left _ hid)).1) a
  rw [Chronicle.iterate_visit_length, Chronicle.windowOf_visit_length, ← hlast] at hadd
  rw [show s₁.history.iterates = _ from hw.iterates, List.map_map] at hx
  have hleft := (congrArg (S.residual (σ.chronicle.visit d).window) hx).trans hadd
  refine ⟨ks, ⟨hw, hal, hxl, hleft, hleast, fun hmem => ?_⟩, hold⟩
  -- a residual in the span combines to zero, and the matrix takes zero to zero
  have hzero := hleft.trans ((congrArg S.linear (hfixed hmem)).trans (map_zero S.linear))
  exact sub_eq_zero.1 hzero

/-- A quasi-Newton step on an affine solver leaves the residual that the matrix makes of the
combined residual, with the coefficients that make the latter shortest. -/
theorem perform_on_affine {n : Nat} (S : AffineSolver n) {config : Config ℝ}
    (hvalid : config.validate = .ok ()) {calls : List (Call ℝ)} {σ : Session ℝ}
    (hrun : (Session.new config).run calls = .ok σ) {data : DataMap ℝ}
    {reply : Reply (QuasiNewton ℝ) ℝ} (hperform : σ.scheme.perform data = .ok reply)
    (hanswer : reply.answer = .ok ()) {a : List ℝ} (hstep : reply.scheme.coefficients = some a)
    (hdrives : S.Drives (σ.chronicle.note (.perform data) true)) :
    ∃ ks, S.Stepped ⟨reply.scheme, σ.chronicle.note (.perform data) true⟩ ks a
        (reply.data.stacked config.dataIds) ∧
      reply.data.stackedOld config.dataIds = reply.data.stacked config.dataIds := by
  obtain ⟨σ', hrun', hex⟩ := Session.run_total calls (Session.new_exact config)
  obtain rfl := Except.ok.inj (hrun.symm.trans hrun')
  rcases Session.perform_cases hex.sound hperform with ⟨hno, -⟩ | ⟨-, hst, hall, hfit, hs⟩
  · rw [hanswer] at hno
    cases hno
  have hids : (σ.chronicle.meet data).dataIds = config.dataIds := by
    rw [Chronicle.dataIds, Chronicle.config_meet, Session.run_config hrun]
    rfl
  have hadapt := Session.adapt_exact hex hst hall
  have hstepped := step_on_affine S hadapt ((σ.chronicle.started_meet data).trans hst)
    (hids.symm ▸ Config.nodup_of_validate hvalid) hfit hs hstep hdrives
  rw [← hids]
  exact hstepped

/-! ## A diverging solver

The iteration `x ↦ 2 x + 1` runs away from its fixed point. From zero, the first call relaxes, and
the second takes a quasi-Newton step. -/

namespace AffineSolver

open Session (single plain plain_valid)

noncomputable def doubling : AffineSolver 1 := ⟨fun _ _ => 1 + 1, fun _ => euclid 1 [1]⟩

theorem doubling_values (window : Nat) (x : ℝ) :
    doubling.values window (euclid 1 [x]) = euclid 1 [2 * x + 1] := by
  ext i
  obtain rfl : i = 0 := Subsingleton.elim i 0
  rw [values, linear, PiLp.add_apply, Matrix.ofLp_toLpLin, Matrix.toLin'_apply]
  norm_num [doubling, Matrix.mulVec, dotProduct]

/-- The two calls bring the values of the solver at zero and at one. -/
theorem doubling_drives : doubling.Drives
    ⟨plain, [], true, single 1 0, 1, [⟨1, single 1 0⟩, ⟨1, single 3 1⟩]⟩ := by
  intro i hi
  have htwo : i < 2 := hi
  obtain rfl | rfl : i = 0 ∨ i = 1 := by omega
  · have hv := doubling_values 1 0
    rw [mul_zero, zero_add] at hv
    exact ⟨rfl, hv.symm⟩
  · have hv := doubling_values 1 1
    rw [show (2 : ℝ) * 1 + 1 = 3 by norm_num] at hv
    exact ⟨rfl, hv.symm⟩

/-- The scheme after the call that relaxed. -/
noncomputable def relaxed : QuasiNewton ℝ :=
  ⟨plain, [], .fit (.new plain.preconditioner) [1], .empty 1, .empty, some ⟨[1 - 0], [1]⟩, .empty,
    none, [(0, 1)], false, true, false, true⟩

/-- What it learns from the next call. -/
noncomputable def learnt : QuasiNewton ℝ :=
  { relaxed with
    factorization := (Factorization.empty 1).grown [(3 - 1 - (1 - 0)) * 1]
    history := relaxed.history.append [(3 - 1 - (1 - 0)) * 1] [3 - 1] }

theorem relaxed_learn : relaxed.learn (single 3 1) ⟨[3 - 1], [3]⟩ = .ok learnt := by
  have hlong : ¬ Vec.norm [(3 : ℝ) - 1 - (1 - 0)] < QuasiNewton.vanishing := by
    rw [norm_singleton, QuasiNewton.vanishing]
    norm_num
  have hne : euclid 1 [(3 - 1 - (1 - 0)) * 1] ≠ 0 := by
    intro h0
    have h : ((3 : ℝ) - 1 - (1 - 0)) * 1 = 0 :=
      congrArg (fun x : EuclideanSpace ℝ (Fin 1) => x 0) h0
    norm_num at h
  exact QuasiNewton.learn_appends rfl rfl rfl rfl rfl Nat.ofNat_pos rfl hlong rfl rfl
    (insert_empty (n := 1) rfl hne) rfl

/-- The first call is answered by relaxing, the second by a step. -/
theorem doubling_run : ∃ (σ : Session ℝ) (reply : Reply (QuasiNewton ℝ) ℝ) (a : List ℝ),
    (Session.new plain).run [.start (single 1 0), .perform (single 1 0)] = .ok σ ∧
      σ.chronicle = ⟨plain, [], true, single 1 0, 1, [⟨1, single 1 0⟩]⟩ ∧
      σ.scheme.perform (single 3 1) = .ok reply ∧ reply.answer = .ok () ∧
      reply.scheme.coefficients = some a := by
  obtain ⟨σ, hrun, hscheme, hchronicle⟩ : ∃ σ : Session ℝ,
      (Session.new plain).run [.start (single 1 0), .perform (single 1 0)] = .ok σ ∧
      σ.scheme = relaxed ∧
      σ.chronicle = ⟨plain, [], true, single 1 0, 1, [⟨1, single 1 0⟩]⟩ := ⟨_, rfl, rfl, rfl⟩
  have hex : σ.Exact := by
    obtain ⟨σ', hr, h⟩ := Session.run_total [.start (single 1 0), .perform (single 1 0)]
      (Session.new_exact plain)
    obtain rfl := Except.ok.inj (hrun.symm.trans hr)
    exact h
  have hst : σ.chronicle.started = true := by rw [hchronicle]
  have hfit : σ.chronicle.Fitting (single 3 1) := by
    rw [hchronicle]
    exact Session.fitting_single rfl rfl 3 1
  obtain ⟨now, s, coefficients, d', hnow, hlearn, hsolve, hperform, hex'⟩ :=
    hex.perform_learning hst hfit
  obtain rfl : now = ⟨[3 - 1], [3]⟩ := by
    rw [hnow, hchronicle]
    rfl
  rw [hscheme] at hlearn
  obtain rfl := Except.ok.inj (hlearn.symm.trans relaxed_learn)
  obtain ⟨a, ha⟩ := (hex'.exact hst).solve_some (r := [3 - 1]) rfl (List.cons_ne_nil _ _)
    (by rw [hchronicle]; rfl)
  obtain rfl := Except.ok.inj (hsolve.symm.trans ha)
  exact ⟨σ, _, a, hrun, hchronicle, hperform, rfl, rfl⟩

theorem perform_on_affine_doubling : ∃ (σ : Session ℝ) (reply : Reply (QuasiNewton ℝ) ℝ)
    (a : List ℝ), plain.validate = .ok () ∧
      (Session.new plain).run [.start (single 1 0), .perform (single 1 0)] = .ok σ ∧
      σ.scheme.perform (single 3 1) = .ok reply ∧ reply.answer = .ok () ∧
      reply.scheme.coefficients = some a ∧
      doubling.Drives (σ.chronicle.note (.perform (single 3 1)) true) ∧
      ∃ ks, doubling.Stepped
          ⟨reply.scheme, σ.chronicle.note (.perform (single 3 1)) true⟩ ks a
          (reply.data.stacked plain.dataIds) ∧
        reply.data.stackedOld plain.dataIds = reply.data.stacked plain.dataIds := by
  obtain ⟨σ, reply, a, hrun, hchronicle, hperform, hanswer, ha⟩ := doubling_run
  have hdrives : doubling.Drives (σ.chronicle.note (.perform (single 3 1)) true) := by
    rw [hchronicle]
    exact doubling_drives
  exact ⟨σ, reply, a, plain_valid, hrun, hperform, hanswer, ha, hdrives,
    perform_on_affine _ plain_valid hrun hperform hanswer ha hdrives⟩

end AffineSolver

end Acceleration

end Cosimulation

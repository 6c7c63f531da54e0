import Cosimulation.Proofs.Data.Rows
import Cosimulation.Proofs.QuasiNewton.Affine
import Cosimulation.Proofs.QuasiNewton.Openings

/-!
# Relaxation or a quasi-Newton step

A call that is answered either relaxes every block or moves every block along its columns; it never
does one to some blocks and the other to the rest. `perform_updates` says which, in exact arithmetic
and after every run, and what becomes of the data (`Updated`). It relaxes if it is the first call of
the first window, the first of a window where the settings force relaxation, or if no column is left
when it is done learning. Otherwise there is one coefficient for each column, and every secondary
block has as many columns of its own, so that no combination of columns and coefficients is cut
short.
-/

namespace Cosimulation

namespace DataMap

/-- Relaxing and storing rewrites the blocks entry by entry. -/
theorem valuesOf_relax_store {ids : List DataId} (hnodup : ids.Nodup) {m moved m' : DataMap ℝ}
    {ω : ℝ} (hrelax : m.relax ids ω = .ok moved) (hstore : moved.store ids = .ok m') :
    ∀ id ∈ ids, m'.valuesOf id =
      (m.valuesOf id).zipWith (fun value old => old + ω * (value - old)) (m.oldOf id) := by
  intro id hid
  rw [(relax_store_ok hnodup hrelax hstore hid).1]
  refine List.ext_getElem (by simp [Vec.axpy, Vec.sub]) fun i hi hi' => ?_
  simp only [Vec.axpy, Vec.sub, List.getElem_zipWith]
  exact add_comm _ _

end DataMap

namespace Acceleration

namespace QuasiNewton

variable {s : QuasiNewton ℝ}

/-- Every secondary block moves along its own columns. -/
theorem valuesOf_moveSecondary {a : List ℝ} : ∀ {ids : List DataId} {data data' : DataMap ℝ},
    ids.Nodup → s.moveSecondary a data ids = .ok data' → ∀ id ∈ ids,
      (data.valuesOf id).plusCombination a (s.history.secondaryColumns id) =
        .ok (data'.valuesOf id) := by
  intro ids
  induction ids with
  | nil => exact fun _ _ id hid => absurd hid List.not_mem_nil
  | cons j js ih =>
    intro data data' hnodup h id hid
    obtain ⟨hj, hjs⟩ := List.nodup_cons.1 hnodup
    obtain ⟨data₁, h₁, hrest⟩ := bind_ok h
    obtain ⟨b, b', hb, hb', hfind⟩ := DataMap.modify_ok h₁
    rcases List.mem_cons.1 hid with rfl | hid
    · -- the blocks that follow are others, so this one keeps what it gets here
      obtain ⟨values, hvalues, hb'⟩ := bind_ok hb'
      obtain rfl := Except.ok.inj hb'
      have hmoved := (find?_moveSecondary hrest id hj).trans ((hfind id).trans (if_pos rfl))
      rw [DataMap.valuesOf_eq hb, DataMap.valuesOf_eq hmoved]
      exact hvalues
    · have hkeep := (hfind id).trans (if_neg fun hij : id = j => hj (hij ▸ hid))
      rw [← DataMap.valuesOf_congr hkeep]
      exact ih hjs hrest id hid

/-- A step leaves each secondary block where the combination of its columns takes it. -/
theorem euclid_secondary_respond {n : Nat} {data data' : DataMap ℝ} {now : Snapshot ℝ} {a : List ℝ}
    (hnodup : s.secondaryIds.Nodup) (hsep : ∀ id ∈ s.secondaryIds, id ∉ s.config.dataIds)
    (h : s.respond data now = .ok (some a, data')) {id : DataId} (hid : id ∈ s.secondaryIds)
    (hlen : (data.valuesOf id).length = n)
    (hcols : ∀ x ∈ s.history.secondaryColumns id, x.length = n) :
    (data'.valuesOf id).length = n ∧ euclid n (data'.valuesOf id) =
      euclid n (data.valuesOf id) + combine a ((s.history.secondaryColumns id).map (euclid n)) := by
  obtain ⟨moved, -, hmove, hstore⟩ := respond_eq h
  obtain ⟨update, -, hmove⟩ := bind_ok hmove
  obtain ⟨unstacked, hunstack, hmove⟩ := bind_ok hmove
  -- the primary blocks are rewritten first, and none of them is this one
  have hkeep : unstacked.valuesOf id = data.valuesOf id :=
    DataMap.valuesOf_congr (DataMap.find?_unstack hunstack id (hsep id hid))
  have hcombined := valuesOf_moveSecondary hnodup hmove id hid
  rw [hkeep] at hcombined
  rw [(DataMap.store_ok hstore).1]
  exact euclid_plusCombination hlen hcols hcombined

/-! ### The coefficients -/

section
variable {sizes : List Nat} {size : DataId → Nat} {r : Vec ℝ}

/-- There are no coefficients exactly where the call has to relax or has no columns. -/
theorem Exact.solve_eq_none_iff (h : s.Exact sizes size) (hr : r.length = sizes.sum)
    {coefficients : Option (List ℝ)} (hsolve : s.solve r = .ok coefficients) :
    coefficients = none ↔ s.relaxesOnly = true ∨ s.columns = 0 := by
  cases hrelax : s.relaxesOnly with
  | true =>
    rw [QuasiNewton.solve, if_pos hrelax] at hsolve
    obtain rfl := Except.ok.inj hsolve
    exact iff_of_true rfl (.inl rfl)
  | false =>
    by_cases hnil : s.history.residuals = []
    · rw [QuasiNewton.solve, if_neg (Bool.eq_false_iff.1 hrelax), h.fits.apply_total hr] at hsolve
      have hfactorizes := h.factorizes
      rw [hnil] at hfactorizes
      obtain rfl := Except.ok.inj ((hfactorizes.solve_nil _).symm.trans hsolve)
      exact iff_of_true rfl (.inr (congrArg List.length hnil))
    · obtain ⟨a, ha⟩ := h.solve_some hrelax hnil hr
      obtain rfl := Except.ok.inj (ha.symm.trans hsolve)
      refine iff_of_false (Option.some_ne_none a) ?_
      rintro (hno | hno)
      · cases hno
      · exact hnil (List.length_eq_zero_iff.1 hno)

/-- There is one coefficient for each column. -/
theorem Exact.length_of_solve (h : s.Exact sizes size) (hr : r.length = sizes.sum) {a : List ℝ}
    (hsolve : s.solve r = .ok (some a)) : a.length = s.columns := by
  obtain ⟨scaled, happly, hsolve⟩ := solve_eq hsolve
  obtain rfl := Except.ok.inj (happly.symm.trans (h.fits.apply_total hr))
  exact (h.factorizes.solve_least (h.fits.length_zipWith _ hr) hsolve).1

end

end QuasiNewton

/-! ## Calls -/

namespace Session

variable {σ : Session ℝ}

/-- Each secondary block has as many columns as the scheme. -/
theorem Aligned.length_secondary {ks : List Nat} (h : σ.Aligned ks) {id : DataId}
    (hid : id ∈ σ.scheme.secondaryIds) :
    (σ.scheme.history.secondaryColumns id).length = σ.scheme.columns := by
  rw [h.secondary id (h.secondaryIds ▸ hid), List.length_map]
  exact h.residuals.symm

/-- Learning leaves the flags alone. -/
theorem Placed.relaxesOnly_learn {marks : List Mark} (hplaced : σ.Placed marks)
    {W : Weighing ℝ} (h : σ.Sound W) (hst : σ.chronicle.started = true) {d : DataMap ℝ}
    (hfit : σ.chronicle.Fitting d) {s : QuasiNewton ℝ}
    (hl : σ.scheme.learn d ⟨(d.stacked σ.chronicle.dataIds).sub (d.stackedOld σ.chronicle.dataIds),
      d.stacked σ.chronicle.dataIds⟩ = .ok s) :
    s.relaxesOnly = true ↔ FirstOfAll marks ∨
      (FirstOfWindow marks ∧ σ.chronicle.config.forceInitialRelaxation = true) := by
  obtain ⟨hsame, -, -⟩ := learn_sound h hfit hl
  rw [← h.follows.config, ← hplaced.relaxesOnly_iff hst, QuasiNewton.relaxesOnly,
    hsame.firstIteration, hsame.firstWindow, hsame.config]
  rfl

end Session

/-- What a call on the data `d` leaves, the scheme being `s` and the data `d'` after it. The marks
are those before the call and that of a remeshing by its data. -/
structure Updated (config : Config ℝ) (marks : List Mark) (d d' : DataMap ℝ) (s : QuasiNewton ℝ) :
    Prop where
  relaxes : s.coefficients = none ↔ FirstOfAll marks ∨
    (FirstOfWindow marks ∧ config.forceInitialRelaxation = true) ∨ s.columns = 0
  paired : ∀ id ∈ config.dataIds ++ s.secondaryIds, d.Paired id
  relaxed : s.coefficients = none → ∀ id ∈ config.dataIds ++ s.secondaryIds,
    d'.valuesOf id = (d.valuesOf id).zipWith
      (fun value old => old + config.initialRelaxation * (value - old)) (d.oldOf id)
  /-- There is one coefficient for each column. -/
  coefficients : ∀ a, s.coefficients = some a → a.length = s.columns
  /-- Each list has all the columns, and they are as long as what they move. -/
  iterates : s.history.iterates.length = s.columns ∧
    ∀ x ∈ s.history.iterates, x.length = (d.stacked config.dataIds).length
  secondaries : ∀ id ∈ s.secondaryIds, (s.history.secondaryColumns id).length = s.columns ∧
    ∀ x ∈ s.history.secondaryColumns id, x.length = (d.valuesOf id).length
  primary : ∀ a, s.coefficients = some a → ∀ n, (d.stacked config.dataIds).length = n →
    (d'.stacked config.dataIds).length = n ∧ euclid n (d'.stacked config.dataIds) =
      euclid n (d.stacked config.dataIds) + combine a (s.history.iterates.map (euclid n))
  secondary : ∀ a, s.coefficients = some a → ∀ id ∈ s.secondaryIds, ∀ n,
    (d.valuesOf id).length = n →
    (d'.valuesOf id).length = n ∧ euclid n (d'.valuesOf id) =
      euclid n (d.valuesOf id) + combine a ((s.history.secondaryColumns id).map (euclid n))

/-- A step on data whose blocks have the recorded lengths. -/
theorem step_updates {σ : Session ℝ} {marks : List Mark} (h : σ.Exact) (hplaced : σ.Placed marks)
    (hst : σ.chronicle.started = true) (hnodup : σ.chronicle.dataIds.Nodup) {d d' : DataMap ℝ}
    {s' : QuasiNewton ℝ} (hfit : σ.chronicle.Fitting d)
    (hs : σ.scheme.step d (d.stacked σ.chronicle.dataIds) (d.stackedOld σ.chronicle.dataIds) =
      .ok (s', d')) : Updated σ.chronicle.config marks d d' s' := by
  -- the step is one that keeps the invariant
  obtain ⟨s₂, d₂, hs₂, hex⟩ := h.step_total hst hfit
  obtain ⟨rfl, rfl⟩ := Prod.mk.inj (Except.ok.inj (hs₂.symm.trans hs))
  have hf := hex.sound.follows
  obtain ⟨ks, haligned, -⟩ := hex.sound.aligned
  obtain ⟨s₁, coefficients, -, hl, hresp, rfl⟩ := QuasiNewton.step_eq hs
  have he := QuasiNewton.Exact.of_answered (hex.exact hst)
  have hconfig : s₁.config = σ.chronicle.config := hf.config
  have hids : s₁.config.dataIds = σ.chronicle.dataIds := hf.dataIds
  have hsec : s₁.secondaryIds = σ.chronicle.secondaryIds := hf.secondaryIds
  have hresidual := hfit.length_residual
  have hstacked := hfit.length_stacked
  obtain ⟨moved, hsolve, hadvance, hstore⟩ := QuasiNewton.respond_eq hresp
  have hsecondary : ∀ id ∈ s₁.secondaryIds,
      (s₁.history.secondaryColumns id).length = s₁.columns ∧
        ∀ x ∈ s₁.history.secondaryColumns id, x.length = (d.valuesOf id).length := by
    intro id hid
    refine ⟨haligned.length_secondary hid, fun x hx => ?_⟩
    rw [he.secondary_length id hid x hx, (hfit id (List.mem_append_right _ (hsec ▸ hid))).2]
    rfl
  refine ⟨?_, fun id hid => ?_, fun hnone => ?_, fun a ha => ?_,
    ⟨he.iterates, fun x hx => (he.iterate_length x hx).trans hstacked.symm⟩, hsecondary,
    fun a ha n hn => ?_, fun a ha id hid n hn => ?_⟩
  · rw [← or_assoc, ← hplaced.relaxesOnly_learn h.sound hst hfit hl]
    exact he.solve_eq_none_iff hresidual hsolve
  · rw [hsec] at hid
    exact (hfit id hid).1
  · obtain rfl : coefficients = none := hnone
    -- no block is relaxed twice
    have htracked : (σ.chronicle.config.dataIds ++ s₁.secondaryIds).Nodup := by
      rw [hsec]
      exact List.nodup_append.2 ⟨hnodup, hf.distinct, fun x hx y hy hxy =>
        hf.separate y hy (hxy ▸ hx)⟩
    rw [← hconfig] at htracked ⊢
    exact DataMap.valuesOf_relax_store htracked hadvance hstore
  · obtain rfl : coefficients = some a := ha
    exact he.length_of_solve hresidual hsolve
  · obtain rfl : coefficients = some a := ha
    obtain rfl := hstacked.symm.trans hn
    obtain ⟨hlength, hvalues, -⟩ := QuasiNewton.stacked_respond (s := s₁) (hids ▸ hnodup)
      (by rw [hids, hsec]; exact hf.separate) hstacked (hids ▸ hstacked) he.iterate_length hresp
    rw [hids] at hlength hvalues
    exact ⟨hlength, hvalues⟩
  · obtain rfl : coefficients = some a := ha
    refine QuasiNewton.euclid_secondary_respond (s := s₁) (hsec ▸ hf.distinct)
      (by rw [hids, hsec]; exact hf.separate) hresp hid hn fun x hx => ?_
    exact ((hsecondary id hid).2 x hx).trans hn

/-- Every call that is answered relaxes every block or moves every block along its columns, and the
marks of the calls before it say which. -/
theorem perform_updates {config : Config ℝ} (hvalid : config.validate = .ok ())
    {calls : List (Call ℝ)} {σ : Session ℝ} (hrun : (Session.new config).run calls = .ok σ)
    {data : DataMap ℝ} {reply : Reply (QuasiNewton ℝ) ℝ}
    (hperform : σ.scheme.perform data = .ok reply) (hanswer : reply.answer = .ok ()) :
    Updated config ((Session.new config).marks calls ++ σ.chronicle.arrival data) data reply.data
      reply.scheme := by
  obtain ⟨σ', hrun', hex⟩ := Session.run_total calls (Session.new_exact config)
  obtain rfl := Except.ok.inj (hrun.symm.trans hrun')
  have hplaced := Session.run_placed (Session.new_placed config)
    (Session.new_sound .silent config) hrun
  rw [List.nil_append] at hplaced
  rcases Session.perform_cases hex.sound hperform with ⟨hno, -⟩ | ⟨-, hst, hall, hfit, hs⟩
  · rw [hanswer] at hno
    cases hno
  have hconfig : (σ.chronicle.meet data).config = config := by
    rw [Chronicle.config_meet, Session.run_config hrun]
    rfl
  have hids : (σ.chronicle.meet data).dataIds = config.dataIds := congrArg Config.dataIds hconfig
  have hupdated := step_updates (Session.adapt_exact hex hst hall)
    (Session.adapt_placed hplaced hex.sound.follows hst hall)
    ((σ.chronicle.started_meet data).trans hst) (hids.symm ▸ Config.nodup_of_validate hvalid)
    hfit hs
  rw [hconfig] at hupdated
  exact hupdated

open Session (single plain plain_valid)

/-- The second call of a window, which takes a step. -/
theorem perform_updates_doubling : ∃ (σ : Session ℝ) (reply : Reply (QuasiNewton ℝ) ℝ),
    plain.validate = .ok () ∧
    (Session.new plain).run [.start (single 1 0), .perform (single 1 0)] = .ok σ ∧
    σ.scheme.perform (single 3 1) = .ok reply ∧ reply.answer = .ok () ∧
    reply.scheme.columns ≠ 0 ∧
    Updated plain [.renewed, .visited] (single 3 1) reply.data reply.scheme := by
  obtain ⟨σ, reply, a, hrun, hchronicle, hperform, hanswer, ha⟩ := AffineSolver.doubling_run
  have hupdated := perform_updates plain_valid hrun hperform hanswer
  rw [show (Session.new plain).marks _ = [.renewed, .visited] from rfl,
    show σ.chronicle.arrival (single 3 1) = [] by rw [hchronicle]; rfl] at hupdated
  refine ⟨σ, reply, plain_valid, hrun, hperform, hanswer, fun hnone => ?_, hupdated⟩
  have hrelaxed := hupdated.relaxes.2 (.inr (.inr hnone))
  rw [ha] at hrelaxed
  cases hrelaxed

end Acceleration

end Cosimulation

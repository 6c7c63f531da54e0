import Cosimulation.Proofs.Factorization.LeastSquares
import Cosimulation.Proofs.QuasiNewton.Alignment
import Cosimulation.Proofs.QuasiNewton.Weights

/-!
# A call in exact arithmetic

In exact arithmetic every operation of a quasi-Newton scheme has a result: the lengths of vectors
agree wherever two are combined, the positions that are removed exist, and the checks of the
factorization and of the history pass.

The invariant is `Exact`: the preconditioner fits the primary blocks, the factorization is one of
the columns of residual moves, every column is as long as the blocks it belongs to, and there are no
more columns than the settings allow. Each step of a call succeeds on a scheme that is exact and
leaves it exact (`Exact.reweigh`, `Exact.extend`, `noteSecondary_total`, `Exact.applyFilter`), so a
whole call does (`Exact.learn`, `Exact.respond`).
-/

namespace Cosimulation.Acceleration

open Factorization

/-- A computation on all entries of a list succeeds when it does on each. -/
theorem mapM_total {β γ ε : Type} {f : β → Except ε γ} {g : β → γ} : ∀ {xs : List β},
    (∀ x ∈ xs, f x = .ok (g x)) → xs.mapM f = .ok (xs.map g) := by
  intro xs
  induction xs with
  | nil => intro _; rfl
  | cons x xs ih =>
    intro h
    rw [List.mapM_cons, h x List.mem_cons_self]
    show xs.mapM f >>= _ = _
    rw [ih fun y hy => h y (List.mem_cons_of_mem _ hy)]
    rfl

namespace QuasiNewton

/-- A scheme in exact arithmetic whose primary blocks have the lengths `sizes` and whose secondary
blocks have the lengths `size`. -/
structure Exact (sizes : List Nat) (size : DataId → Nat) (s : QuasiNewton ℝ) : Prop where
  invertible : s.preconditioner.Invertible
  fits : s.preconditioner.Fits sizes
  factorizes : Factorizes sizes.sum s.factorization s.history.residuals
  iterates : s.history.iterates.length = s.history.residuals.length
  iterate_length : ∀ x ∈ s.history.iterates, x.length = sizes.sum
  secondary_length : ∀ id ∈ s.secondaryIds, ∀ x ∈ s.history.secondaryColumns id, x.length = size id
  bounded : s.columns ≤ s.config.maxIterationsUsed

variable {sizes : List Nat} {size : DataId → Nat} {s : QuasiNewton ℝ}

/-! ## Dropping columns -/

/-- A scheme without columns. -/
theorem exact_of_empty (hinv : s.preconditioner.Invertible) (hfits : s.preconditioner.Fits sizes)
    (hf : s.factorization = .empty sizes.sum) (hh : s.history = .empty) : s.Exact sizes size := by
  refine ⟨hinv, hfits, ?_, ?_, ?_, ?_, ?_⟩
  · rw [hf, hh]
    exact empty_factorizes _
  · rw [hh]
    rfl
  · rw [hh]
    exact fun x hx => absurd hx List.not_mem_nil
  · intro id _
    rw [hh]
    exact fun x hx => absurd hx List.not_mem_nil
  · rw [columns, hh]
    exact Nat.zero_le _

theorem Exact.clear (h : s.Exact sizes size) : s.clear.Exact sizes size :=
  exact_of_empty h.invertible h.fits (congrArg Factorization.empty h.factorizes.rows) rfl

theorem Exact.discharge (h : s.Exact sizes size) :
    s.discharge.Exact sizes size ∧ SameSetup s s.discharge := by
  unfold QuasiNewton.discharge
  split
  next =>
    exact ⟨exact_of_empty h.invertible h.fits (congrArg Factorization.empty h.factorizes.rows) rfl,
      rfl⟩
  next => exact ⟨h, rfl⟩

/-- One column is erased from the factorization and from all lists. There may have been one more
than the settings allow. -/
theorem exact_of_erase {f : Factorization ℝ} {g : History ℝ} {i : Nat}
    (hinv : s.preconditioner.Invertible) (hfits : s.preconditioner.Fits sizes)
    (hf : Factorizes sizes.sum f (s.history.residuals.eraseIdx i))
    (hit : s.history.iterates.length = s.history.residuals.length)
    (hil : ∀ x ∈ s.history.iterates, x.length = sizes.sum)
    (hsl : ∀ id ∈ s.secondaryIds, ∀ x ∈ s.history.secondaryColumns id, x.length = size id)
    (hi : i < s.columns) (hb : s.columns ≤ s.config.maxIterationsUsed + 1)
    (hres : g.residuals = s.history.residuals.eraseIdx i)
    (hgit : g.iterates = s.history.iterates.eraseIdx i)
    (hsec : ∀ id, g.secondaryColumns id = (s.history.secondaryColumns id).eraseIdx i) :
    Exact sizes size { s with factorization := f, history := g } := by
  refine ⟨hinv, hfits, hres ▸ hf, ?_, fun x hx => ?_, fun id hid x hx => ?_, ?_⟩
  · rw [hgit, hres, List.length_eraseIdx, List.length_eraseIdx, hit]
  · rw [hgit] at hx
    exact hil x (List.mem_of_mem_eraseIdx hx)
  · rw [hsec] at hx
    exact hsl id hid x (List.mem_of_mem_eraseIdx hx)
  · have hlen : g.residuals.length = s.columns - 1 := by
      rw [hres, List.length_eraseIdx]
      exact if_pos hi
    show g.residuals.length ≤ s.config.maxIterationsUsed
    omega

theorem Exact.drop (h : s.Exact sizes size) {i : Nat} (hi : i < s.columns) :
    ∃ s', s.drop i = .ok s' ∧ s'.Exact sizes size ∧ SameSetup s s' := by
  obtain ⟨f, hf, hff⟩ := h.factorizes.delete (Nat.lt_of_lt_of_eq hi h.factorizes.columns_eq.symm)
  obtain ⟨g, hg, hres, hit, hsec⟩ := History.drop_total h.iterates hi
  refine ⟨{ s with factorization := f, history := g }, ?_,
    exact_of_erase h.invertible h.fits hff h.iterates h.iterate_length h.secondary_length hi
      (Nat.le_succ_of_le h.bounded) hres hit hsec, rfl⟩
  rw [QuasiNewton.drop, hf]
  show s.history.drop i >>= _ = _
  rw [hg]
  rfl

/-- Columns that the factorization has lost are dropped from the history. Here the factorization is
of the columns that remain. -/
theorem dropAll_exact {positions : List Nat} (hinv : s.preconditioner.Invertible)
    (hfits : s.preconditioner.Fits sizes)
    (hf : Factorizes sizes.sum s.factorization (eraseAll s.history.residuals positions))
    (hc : s.factorization.columns + positions.length = s.history.residuals.length)
    (hit : s.history.iterates.length = s.history.residuals.length)
    (hil : ∀ x ∈ s.history.iterates, x.length = sizes.sum)
    (hsl : ∀ id ∈ s.secondaryIds, ∀ x ∈ s.history.secondaryColumns id, x.length = size id)
    (hb : s.history.residuals.length ≤ s.config.maxIterationsUsed) :
    ∃ s', s.dropAll positions = .ok s' ∧ s'.Exact sizes size ∧ SameSetup s s' := by
  have hlen : (eraseAll s.history.residuals positions).length + positions.length =
      s.history.residuals.length := by rw [← hf.columns_eq, hc]
  obtain ⟨g, hg, hgl, hres, hgit, hsec⟩ := History.dropAll_total positions hit hlen
  refine ⟨{ s with history := g }, ?_, ⟨hinv, hfits, hres ▸ hf, hgl, ?_,
    fun id hid x hx => ?_, ?_⟩, rfl⟩
  · rw [QuasiNewton.dropAll, hg]
    rfl
  · intro x hx
    rw [hgit] at hx
    exact hil x (mem_of_mem_eraseAll positions hx)
  · rw [hsec] at hx
    exact hsl id hid x (mem_of_mem_eraseAll positions hx)
  · refine Nat.le_trans ?_ hb
    show g.residuals.length ≤ s.history.residuals.length
    rw [hres]
    omega

/-! ## Weighting anew -/

/-- All columns can be freed of their weights and given those of `p`. -/
theorem Exact.rescale (h : s.Exact sizes size) {p : Preconditioner ℝ} (hp : p.Fits sizes) :
    ∃ unscaled residuals, s.history.residuals.mapM s.preconditioner.revert = .ok unscaled ∧
      unscaled.mapM p.apply = .ok residuals ∧ (∀ x ∈ residuals, x.length = sizes.sum) ∧
      residuals = s.history.residuals.map fun x =>
        (x.zipWith (· / ·) s.preconditioner.weights).zipWith (· * ·) p.weights := by
  have hcl := h.factorizes.column_length
  have hul : ∀ x ∈ s.history.residuals.map fun x => x.zipWith (· / ·) s.preconditioner.weights,
      x.length = sizes.sum :=
    List.forall_mem_map.2 fun y hy => h.fits.length_zipWith _ (hcl y hy)
  refine ⟨_, _, mapM_total fun x hx => h.fits.revert_total (hcl x hx),
    mapM_total fun x hx => hp.apply_total (hul x hx), ?_, List.map_map⟩
  exact List.forall_mem_map.2 fun y hy => hp.length_zipWith _ (hul y hy)

theorem Exact.reweigh (h : s.Exact sizes size) {v r : Vec ℝ} (hv : v.length = sizes.sum)
    (hr : r.length = sizes.sum) :
    ∃ s', s.reweigh v r = .ok s' ∧ s'.Exact sizes size ∧ SameSetup s s' := by
  unfold QuasiNewton.reweigh
  split
  next => exact ⟨s, rfl, h, rfl⟩
  next hfr =>
    rw [not_or, Bool.not_eq_true] at hfr
    obtain ⟨p, hp, hpf⟩ := h.fits.update_total hv hr
    have hpinv := h.invertible.update hp
    obtain ⟨unscaled, residuals, hrev, happ, hrl, hres⟩ := h.rescale hpf
    have hlen : residuals.length = s.history.residuals.length := hres ▸ List.length_map _
    cases hch : p.weightsChanged with
    | false =>
      -- the weights are the old ones, and so are the columns
      have hsame : residuals = s.history.residuals := by
        rw [hres]
        refine Eq.trans (List.map_congr_left fun x hx => ?_) (List.map_id _)
        have hx' := (h.factorizes.column_length x hx).trans h.fits.weights.symm
        rw [Preconditioner.weights_of_unchanged hp hch]
        exact Preconditioner.zipWith_mul_div hx' (h.invertible.ne_zero (Bool.eq_false_iff.2 hfr.2))
      refine ⟨{ s with preconditioner := p, history := { s.history with residuals } }, ?_, ?_, rfl⟩
      · rw [hrev]
        show s.preconditioner.update v r >>= _ = _
        rw [hp]
        show unscaled.mapM p.apply >>= _ = _
        rw [happ]
        exact if_neg (Bool.eq_false_iff.1 hch)
      · subst hsame
        exact ⟨hpinv, hpf, h.factorizes, h.iterates, h.iterate_length, h.secondary_length,
          h.bounded⟩
    | true =>
      -- the new columns are factorized anew, and those refused are dropped
      obtain ⟨f, refused, hf, hff⟩ := h.factorizes.rebuild hrl
      obtain ⟨-, -, hcount⟩ := rebuild_shaped hf
      obtain ⟨s₁, hs₁, he, hsame⟩ := dropAll_exact (s := { s with
          preconditioner := p
          factorization := f
          history := { s.history with residuals } }) hpinv hpf hff
        (by rw [List.length_reverse]; exact hcount) (h.iterates.trans hlen.symm) h.iterate_length
        h.secondary_length (hlen ▸ h.bounded)
      refine ⟨{ s₁ with preconditioner := s₁.preconditioner.acknowledge }, ?_,
        ⟨he.invertible, ⟨he.fits.blocks, he.fits.weights, he.fits.sums⟩, he.factorizes, he.iterates,
          he.iterate_length, he.secondary_length, he.bounded⟩, hsame⟩
      rw [hrev]
      show s.preconditioner.update v r >>= _ = _
      rw [hp]
      show unscaled.mapM p.apply >>= _ = _
      rw [happ]
      refine (if_pos hch).trans ?_
      show s.factorization.rebuild residuals >>= _ = _
      rw [hf]
      show QuasiNewton.dropAll _ refused.reverse >>= _ = _
      rw [hs₁]
      rfl

/-! ## The newest column -/

theorem Exact.adopt (h : s.Exact sizes size) {f : Factorization ℝ} {residual iterate : Vec ℝ}
    (hf : Factorizes sizes.sum f (s.history.residuals ++ [residual]))
    (hi : iterate.length = sizes.sum) :
    ∃ s', s.adopt f residual iterate = .ok s' ∧ s'.Exact sizes size ∧ SameSetup s s' := by
  have hlen : (s.history.append residual iterate).residuals.length =
      s.history.residuals.length + 1 := List.length_append
  have hit : (s.history.append residual iterate).iterates.length =
      (s.history.append residual iterate).residuals.length := by
    rw [hlen, ← h.iterates]
    exact List.length_append
  have hil : ∀ x ∈ (s.history.append residual iterate).iterates, x.length = sizes.sum := by
    intro x hx
    rcases List.mem_append.1 hx with hx | hx
    · exact h.iterate_length x hx
    · rw [List.mem_singleton.1 hx]
      exact hi
  unfold QuasiNewton.adopt
  dsimp only
  split
  next hover =>
    -- one column too many, and the oldest goes
    have hpos : 0 < (s.history.append residual iterate).residuals.length := hlen ▸ Nat.succ_pos _
    obtain ⟨g, hg, hfg⟩ := hf.delete (i := 0) (Nat.lt_of_lt_of_eq hpos hf.columns_eq.symm)
    obtain ⟨k, hk, hres, hkit, hsec⟩ := History.drop_total hit hpos
    refine ⟨{ s with factorization := g, history := k }, ?_, exact_of_erase
      (s := { s with history := s.history.append residual iterate }) h.invertible h.fits hfg hit hil
      h.secondary_length hpos (Nat.le_trans (Nat.le_of_eq hlen) (Nat.succ_le_succ h.bounded)) hres
      hkit hsec, rfl⟩
    show f.delete 0 >>= _ = _
    rw [hg]
    show (s.history.append residual iterate).drop 0 >>= _ = _
    rw [hk]
    rfl
  next hover =>
    exact ⟨_, rfl,
      ⟨h.invertible, h.fits, hf, hit, hil, h.secondary_length, Nat.not_lt.1 hover⟩, rfl⟩

theorem Exact.extend (h : s.Exact sizes size) {now : Snapshot ℝ}
    (hr : now.residual.length = sizes.sum) (hi : now.iterate.length = sizes.sum)
    (hlast : s.firstIteration = false → ∀ last, s.last = some last →
      last.residual.length = sizes.sum ∧ last.iterate.length = sizes.sum) :
    ∃ s' added, s.extend now = .ok (s', added) ∧ s'.Exact sizes size ∧ SameSetup s s' ∧
      (added = true → s.firstIteration = false) := by
  unfold QuasiNewton.extend
  split
  next => exact ⟨s, false, rfl, h, rfl, fun h => absurd h Bool.false_ne_true⟩
  next hfirst =>
    rw [not_or, Bool.not_eq_true] at hfirst
    split
    next => exact ⟨s, false, rfl, h, rfl, fun h => absurd h Bool.false_ne_true⟩
    next last hl =>
      obtain ⟨hlr, hli⟩ := hlast hfirst.1 last hl
      have hml : (now.residual.sub last.residual).length = sizes.sum :=
        (Vec.length_sub (hr.trans hlr.symm)).trans hlr
      have hil : (now.iterate.sub last.iterate).length = sizes.sum :=
        (Vec.length_sub (hi.trans hli.symm)).trans hli
      obtain ⟨hd, hsame⟩ := h.discharge
      have happ := hd.fits.apply_total hml
      have hxl := hd.fits.length_zipWith (· * ·) hml
      have hm := Vec.minus_ok_iff.2 ⟨hr.trans hlr.symm, rfl⟩
      have hmi := Vec.minus_ok_iff.2 ⟨hi.trans hli.symm, rfl⟩
      by_cases hn : (now.residual.sub last.residual).norm < vanishing
      · refine ⟨s, false, ?_, h, rfl, fun h => absurd h Bool.false_ne_true⟩
        rw [hm]
        exact if_pos hn
      rcases hd.factorizes.insert_cases hxl with hins | ⟨f, hins, hff⟩
      · refine ⟨s.discharge, false, ?_, hd, hsame, fun h => absurd h Bool.false_ne_true⟩
        rw [hm]
        refine (if_neg hn).trans ?_
        rw [hmi]
        show s.discharge.preconditioner.apply _ >>= _ = _
        rw [happ]
        show s.discharge.factorization.insert _ >>= _ = _
        rw [hins]
        rfl
      · obtain ⟨s', ha, he, hsame'⟩ := hd.adopt hff hil
        refine ⟨s', true, ?_, he, hsame.trans hsame', fun _ => hfirst.1⟩
        rw [hm]
        refine (if_neg hn).trans ?_
        rw [hmi]
        show s.discharge.preconditioner.apply _ >>= _ = _
        rw [happ]
        show s.discharge.factorization.insert _ >>= _ = _
        rw [hins]
        show s.discharge.adopt f _ _ >>= _ = _
        rw [ha]
        rfl

/-! ## The secondary blocks -/

theorem secondaryMove_total {id : DataId} {values : Vec ℝ} (hv : values.length = size id)
    (hl : ∀ last, s.lastSecondary.find? id = some last → last.length = size id) :
    ∃ move, s.secondaryMove id values = .ok move ∧ move.length = size id := by
  unfold secondaryMove
  split
  next last hlast =>
    have h := hv.trans (hl last hlast).symm
    exact ⟨_, Vec.minus_ok_iff.2 ⟨h, rfl⟩, (Vec.length_sub h).trans (hl last hlast)⟩
  next => exact ⟨_, rfl, List.length_replicate.trans hv⟩

theorem Exact.appendMove (h : s.Exact sizes size) {added : Bool} {id : DataId} {values : Vec ℝ}
    (hv : values.length = size id)
    (hl : added = true → ∀ last, s.lastSecondary.find? id = some last → last.length = size id) :
    ∃ history, s.appendMove added id values = .ok history ∧
      ∀ m, Exact sizes size { s with history, lastSecondary := m } := by
  unfold QuasiNewton.appendMove
  split
  next hadd =>
    obtain ⟨move, hm, hml⟩ := secondaryMove_total hv (hl hadd)
    refine ⟨s.history.appendSecondary id move, ?_, fun m => ⟨h.invertible, h.fits, h.factorizes,
      h.iterates, h.iterate_length, fun j hj x hx => ?_, h.bounded⟩⟩
    · rw [hm]
      rfl
    · dsimp only at hx
      rw [History.secondaryColumns_appendSecondary] at hx
      split at hx
      next hji =>
        subst hji
        rcases List.mem_append.1 hx with hx | hx
        · exact h.secondary_length j hj x hx
        · rw [List.mem_singleton.1 hx]
          exact hml
      next => exact h.secondary_length j hj x hx
  next =>
    exact ⟨s.history, rfl, fun m => ⟨h.invertible, h.fits, h.factorizes, h.iterates,
      h.iterate_length, h.secondary_length, h.bounded⟩⟩

theorem noteSecondary_total {data : DataMap ℝ} {added : Bool} : ∀ (ids : List DataId)
    {s : QuasiNewton ℝ}, s.Exact sizes size → (∀ id ∈ ids, (data.valuesOf id).length = size id) →
      (added = true → ∀ id ∈ ids, ∀ last, s.lastSecondary.find? id = some last →
        last.length = size id) →
      ∃ s', noteSecondary data added s ids = .ok s' ∧ s'.Exact sizes size ∧
        SameSetup { s with lastSecondary := s'.lastSecondary } s' := by
  intro ids
  induction ids with
  | nil => intro s h _ _; exact ⟨s, rfl, h, rfl⟩
  | cons id ids ih =>
    intro s h hv hl
    have hvid := hv id List.mem_cons_self
    obtain ⟨history, hh, he⟩ := h.appendMove hvid fun hadd => hl hadd id List.mem_cons_self
    obtain ⟨s', hs', he', hsame⟩ := ih (he (s.lastSecondary.insert id (data.valuesOf id)))
      (fun j hj => hv j (List.mem_cons_of_mem _ hj)) (fun hadd j hj last hlast => by
        dsimp only at hlast
        rw [OrderedMap.find?_insert] at hlast
        split at hlast
        next hji =>
          rw [← Option.some.inj hlast, hji]
          exact hvid
        next => exact hl hadd j (List.mem_cons_of_mem _ hj) last hlast)
    refine ⟨s', ?_, he', hsame⟩
    rw [noteSecondary]
    show s.appendMove added id (data.valuesOf id) >>= _ = _
    rw [hh]
    exact hs'

/-! ## Filtering, and the whole of it -/

theorem Exact.applyFilter (h : s.Exact sizes size) (added : Bool) :
    ∃ s', s.applyFilter added = .ok s' ∧ s'.Exact sizes size ∧ SameSetup s s' := by
  unfold QuasiNewton.applyFilter
  split
  next =>
    obtain ⟨f, removed, hf, hff⟩ := s.filter.apply_factorizes h.factorizes
    obtain ⟨-, -, hcount⟩ := Filter.apply_shaped h.factorizes.shaped hf
    obtain ⟨s', hs', he, hsame⟩ := dropAll_exact (s := { s with factorization := f }) h.invertible
      h.fits hff (hcount.trans h.factorizes.columns_eq) h.iterates h.iterate_length
      h.secondary_length h.bounded
    refine ⟨s', ?_, he, hsame⟩
    rw [hf]
    exact hs'
  next => exact ⟨s, rfl, h, rfl⟩

/-- A call learns without fail from values and residuals that are as long as the blocks, if what the
last call of the window left has these lengths too. -/
theorem Exact.learn (h : s.Exact sizes size) {data : DataMap ℝ} {now : Snapshot ℝ}
    (hr : now.residual.length = sizes.sum) (hi : now.iterate.length = sizes.sum)
    (hv : ∀ id ∈ s.secondaryIds, (data.valuesOf id).length = size id)
    (hlast : s.firstIteration = false → (∀ last, s.last = some last →
        last.residual.length = sizes.sum ∧ last.iterate.length = sizes.sum) ∧
      ∀ id ∈ s.secondaryIds, ∀ last, s.lastSecondary.find? id = some last →
        last.length = size id) :
    ∃ s', s.learn data now = .ok s' ∧ s'.Exact sizes size := by
  obtain ⟨p, hp, hpf⟩ := h.fits.accumulate_total hr
  have h₀ : Exact sizes size { s with preconditioner := p } :=
    ⟨h.invertible.accumulate hp, hpf, h.factorizes, h.iterates, h.iterate_length,
      h.secondary_length, h.bounded⟩
  obtain ⟨s₁, hs₁, h₁, hsame₁⟩ := h₀.reweigh hi hr
  obtain ⟨s₂, added, hs₂, h₂, hsame₂, hadd⟩ := h₁.extend hr hi (fun hf last hl =>
    (hlast (hsame₁.firstIteration.symm.trans hf)).1 last (hsame₁.last.symm.trans hl))
  have hsec : s₂.secondaryIds = s.secondaryIds :=
    hsame₂.secondaryIds.trans hsame₁.secondaryIds
  have hsecLast : s₂.lastSecondary = s.lastSecondary :=
    hsame₂.lastSecondary.trans hsame₁.lastSecondary
  obtain ⟨s₃, hs₃, h₃, -⟩ := noteSecondary_total s₂.secondaryIds h₂
    (fun id hid => hv id (hsec ▸ hid)) (fun ha id hid last hl =>
      (hlast (hsame₁.firstIteration.symm.trans (hadd ha))).2 id (hsec ▸ hid) last (hsecLast ▸ hl))
  obtain ⟨s₄, hs₄, h₄, -⟩ := h₃.applyFilter added
  refine ⟨s₄, ?_, h₄⟩
  rw [QuasiNewton.learn, hp]
  show QuasiNewton.reweigh _ _ _ >>= _ = _
  rw [hs₁]
  show s₁.extend now >>= _ = _
  rw [hs₂]
  show noteSecondary data added s₂ s₂.secondaryIds >>= _ = _
  rw [hs₃]
  exact hs₄

/-! ## The answer to a call -/

theorem Exact.solve (h : s.Exact sizes size) {residual : Vec ℝ} (hr : residual.length = sizes.sum) :
    ∃ coefficients, s.solve residual = .ok coefficients := by
  unfold QuasiNewton.solve
  split
  next => exact ⟨none, rfl⟩
  next =>
    rw [h.fits.apply_total hr]
    show ∃ coefficients, s.factorization.solve _ = .ok coefficients
    unfold Factorization.solve
    split
    next => exact ⟨none, rfl⟩
    next =>
      rw [if_neg fun hne => hne ((h.fits.length_zipWith _ hr).trans h.factorizes.rows.symm)]
      exact ⟨_, rfl⟩

/-- With columns there are coefficients, unless the call has to relax. -/
theorem Exact.solve_some (h : s.Exact sizes size) {r : Vec ℝ} (hrelax : s.relaxesOnly = false)
    (hne : s.history.residuals ≠ []) (hr : r.length = sizes.sum) :
    ∃ a, s.solve r = .ok (some a) := by
  obtain ⟨a, ha, -⟩ := h.factorizes.solve_residue hne (h.fits.length_zipWith (· * ·) hr)
  refine ⟨a, ?_⟩
  rw [QuasiNewton.solve, if_neg (Bool.eq_false_iff.1 hrelax), h.fits.apply_total hr]
  exact ha

/-- Secondary blocks move when their columns are as long as they are. -/
theorem moveSecondary_total (coefficients : List ℝ) : ∀ (ids : List DataId) {data : DataMap ℝ},
    (∀ id ∈ ids, data.Paired id) →
    (∀ id ∈ ids, ∀ x ∈ s.history.secondaryColumns id, x.length = (data.valuesOf id).length) →
      ∃ data', s.moveSecondary coefficients data ids = .ok data' ∧
        ∀ j, data'.lengths j = data.lengths j := by
  intro ids
  induction ids with
  | nil => intro data _ _; exact ⟨data, rfl, fun _ => rfl⟩
  | cons id ids ih =>
    intro data hp hl
    obtain ⟨b, hb, hpair⟩ := hp id List.mem_cons_self
    obtain ⟨values, hval, hvl⟩ : ∃ values, b.values.plusCombination coefficients
        (s.history.secondaryColumns id) = .ok values ∧ values.length = b.values.length :=
      Vec.plusCombination_total coefficients fun x hx => by
        rw [hl id List.mem_cons_self x hx, DataMap.valuesOf_eq hb]
    have hkeep : ∀ j, DataMap.lengths (data.insert id { b with values }) j = data.lengths j :=
      DataMap.lengths_insert hb hvl rfl
    obtain ⟨data', hd', hl'⟩ := ih
      (fun j hj => (hp j (List.mem_cons_of_mem _ hj)).congr (hkeep j)) (fun j hj x hx => by
        rw [DataMap.length_valuesOf, hkeep, ← DataMap.length_valuesOf]
        exact hl j (List.mem_cons_of_mem _ hj) x hx)
    refine ⟨data', ?_, fun j => (hl' j).trans (hkeep j)⟩
    have hm : data.modify id (fun b => do
        let values ← b.values.plusCombination coefficients (s.history.secondaryColumns id)
        .ok { b with values }) = .ok (data.insert id { b with values }) := by
      rw [DataMap.modify, hb]
      dsimp only
      rw [hval]
      rfl
    rw [moveSecondary, hm]
    exact hd'

/-- Every block moves or relaxes when the blocks have the lengths of the columns. -/
theorem Exact.advance (h : s.Exact sizes size) {data : DataMap ℝ} {iterate : Vec ℝ}
    (hi : iterate.length = sizes.sum) (hp : ∀ id ∈ s.trackedIds, data.Paired id)
    (hprim : (data.stacked s.config.dataIds).length = sizes.sum)
    (hv : ∀ id ∈ s.secondaryIds, (data.valuesOf id).length = size id)
    (coefficients : Option (List ℝ)) :
    ∃ data', s.advance data iterate coefficients = .ok data' ∧
      ∀ j, data'.lengths j = data.lengths j := by
  cases coefficients with
  | none => exact DataMap.modifyAll_total (DataMap.lengthwise_relax _) s.trackedIds hp
  | some a =>
    obtain ⟨update, hu, hul⟩ : ∃ update,
        Vec.plusCombination (List.replicate iterate.length 0) a s.history.iterates = .ok update ∧
          update.length = (List.replicate iterate.length (0 : ℝ)).length :=
      Vec.plusCombination_total a fun x hx => by
        rw [h.iterate_length x hx, List.length_replicate, hi]
    have hadd : (iterate.add update).length = sizes.sum := by
      have hlen : iterate.length = update.length := by rw [hul, List.length_replicate]
      rw [Vec.length_add hlen, ← hlen, hi]
    obtain ⟨hpp, hps⟩ := List.forall_mem_append.1 hp
    obtain ⟨moved, hm, hml⟩ := DataMap.unstack_total s.config.dataIds (v := iterate.add update) hpp
      (Nat.le_of_eq (hprim.trans hadd.symm))
    obtain ⟨data', hd', hl'⟩ := moveSecondary_total (s := s) a s.secondaryIds
      (fun id hid => (hps id hid).congr (hml id)) (fun id hid x hx => by
        rw [DataMap.length_valuesOf, hml, ← DataMap.length_valuesOf, hv id hid]
        exact h.secondary_length id hid x hx)
    refine ⟨data', ?_, fun j => (hl' j).trans (hml j)⟩
    rw [QuasiNewton.advance, QuasiNewton.move, hu]
    show data.unstack _ s.config.dataIds >>= _ = _
    rw [hm]
    exact hd'

theorem Exact.respond (h : s.Exact sizes size) {data : DataMap ℝ} {now : Snapshot ℝ}
    (hr : now.residual.length = sizes.sum) (hi : now.iterate.length = sizes.sum)
    (hp : ∀ id ∈ s.trackedIds, data.Paired id)
    (hprim : (data.stacked s.config.dataIds).length = sizes.sum)
    (hv : ∀ id ∈ s.secondaryIds, (data.valuesOf id).length = size id) :
    ∃ coefficients data', s.respond data now = .ok (coefficients, data') := by
  obtain ⟨coefficients, hc⟩ := h.solve hr
  obtain ⟨moved, hm, hml⟩ := h.advance hi hp hprim hv coefficients
  obtain ⟨stored, hs, -⟩ := DataMap.modifyAll_total DataMap.lengthwise_store s.trackedIds
    (fun id hid => (hp id hid).congr (hml id))
  refine ⟨coefficients, stored, ?_⟩
  rw [QuasiNewton.respond, hc]
  show s.advance data now.iterate coefficients >>= _ = _
  rw [hm]
  show moved.modifyAll Block.store s.trackedIds >>= _ = _
  rw [hs]
  rfl

/-- The check passes if all lists and the windows hold as many columns as are factorized. -/
theorem validate_of_factorizes {n : Nat} (h : Factorizes n s.factorization s.history.residuals)
    (hi : s.history.iterates.length = s.columns) (hw : s.windows.total = s.columns) :
    s.validate = .ok () := by
  unfold validate
  rw [if_neg]
  · exact h.shaped.validate h.basis_length h.orthonormal
  · rintro (hne | hne | hne)
    · exact hne hi
    · exact hne h.columns_eq
    · exact hne hw

theorem Exact.checked (h : s.Exact sizes size) (hw : s.windows.total = s.columns) :
    s.checked = .ok s := by
  rw [QuasiNewton.checked, validate_of_factorizes h.factorizes h.iterates hw]

/-- What a call notes when it is done. -/
theorem Exact.answered (h : s.Exact sizes size) (coefficients : Option (List ℝ))
    (now : Snapshot ℝ) :
    Exact sizes size { s with coefficients, last := some now, firstIteration := false } :=
  ⟨h.invertible, h.fits, h.factorizes, h.iterates, h.iterate_length, h.secondary_length, h.bounded⟩

theorem Exact.of_answered {coefficients : Option (List ℝ)} {last : Option (Snapshot ℝ)}
    (h : Exact sizes size { s with coefficients, last, firstIteration := false }) :
    s.Exact sizes size :=
  ⟨h.invertible, h.fits, h.factorizes, h.iterates, h.iterate_length, h.secondary_length, h.bounded⟩

/-! ## The end of a window -/

theorem removeOldest_total : ∀ (m : Nat) {s : QuasiNewton ℝ}, s.Exact sizes size →
    m ≤ s.columns → ∃ s', s.removeOldest m = .ok s' ∧ s'.Exact sizes size ∧
      s'.columns + m = s.columns ∧ s'.history.windows = s.history.windows := by
  intro m
  induction m with
  | zero => intro s h _; exact ⟨s, rfl, h, rfl, rfl⟩
  | succ m ih =>
    intro s h hm
    have hpos : 0 < s.history.residuals.length := Nat.lt_of_lt_of_le (Nat.succ_pos m) hm
    obtain ⟨f, hf, hff⟩ :=
      h.factorizes.delete (Nat.lt_of_lt_of_eq hpos h.factorizes.columns_eq.symm)
    obtain ⟨g, hg, hres, hit, hsec, hw⟩ := History.removeColumn_total h.iterates hpos
    have hgl : g.residuals.length + 1 = s.columns := by
      rw [hres, List.length_eraseIdx, if_pos hpos]
      exact Nat.sub_add_cancel hpos
    have hg' := exact_of_erase h.invertible h.fits hff h.iterates h.iterate_length
      h.secondary_length hpos (Nat.le_succ_of_le h.bounded) hres hit hsec
    obtain ⟨s', hs', he, hc, hw'⟩ := ih hg' (Nat.le_of_succ_le_succ (Nat.le_trans hm
      (Nat.le_of_eq hgl.symm)))
    refine ⟨s', ?_, he, ?_, hw'.trans hw⟩
    · rw [removeOldest, hf]
      show s.history.removeColumn 0 >>= _ = _
      rw [hg]
      exact hs'
    · rw [← hgl, ← Nat.add_assoc]
      exact congrArg (· + 1) hc

theorem removeWindows_total : ∀ (m : Nat) {s : QuasiNewton ℝ}, s.Exact sizes size →
    s.windows.total = s.columns → ∃ s', s.removeWindows m = .ok s' ∧ s'.Exact sizes size := by
  intro m
  induction m with
  | zero => intro s h _; exact ⟨s, rfl, h⟩
  | succ m ih =>
    intro s h hw
    rw [removeWindows]
    split
    next => exact ⟨s, rfl, h⟩
    next n ns hsizes =>
      have hsum : n + (Windows.mk ns).total = s.columns := by
        rw [← hw]
        show n + ns.foldr (· + ·) 0 = s.history.windows.sizes.foldr (· + ·) 0
        rw [hsizes]
        rfl
      obtain ⟨s₁, hs₁, h₁, hc₁, hw₁⟩ := removeOldest_total n
        (s := { s with history := { s.history with windows := ⟨ns⟩ } })
        ⟨h.invertible, h.fits, h.factorizes, h.iterates, h.iterate_length, h.secondary_length,
          h.bounded⟩ (Nat.le.intro hsum)
      have hw₁' : s₁.windows.total = s₁.columns := by
        have hc : s₁.columns + n = s.columns := hc₁
        rw [windows, hw₁]
        show (Windows.mk ns).total = s₁.columns
        omega
      obtain ⟨s', hs', he⟩ := ih h₁ hw₁'
      refine ⟨s', ?_, he⟩
      rw [hs₁]
      exact hs'

theorem Exact.retain (h : s.Exact sizes size) (hw : s.windows.total = s.columns) :
    ∃ s', s.retain = .ok s' ∧ s'.Exact sizes size := by
  unfold QuasiNewton.retain
  split
  next =>
    split
    next => exact ⟨s.clear, rfl, h.clear⟩
    next =>
      exact ⟨_, rfl, h.invertible, h.fits, h.factorizes, h.iterates, h.iterate_length,
        h.secondary_length, h.bounded⟩
  next => exact removeWindows_total _ h hw

end QuasiNewton

end Cosimulation.Acceleration

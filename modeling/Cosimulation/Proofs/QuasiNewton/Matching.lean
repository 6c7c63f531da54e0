import Cosimulation.Proofs.Data.Rows
import Cosimulation.Proofs.Factorization.Similarity
import Cosimulation.Proofs.QuasiNewton.Frame

/-!
# Schemes that differ in how they stack and weight

Two quasi-Newton schemes are `Matched` when they are the same up to the order in which the primary
blocks are stacked and up to the weights: what does not depend on these is equal (`outline`), the
columns are relaid, and the factorizations are similar. The weighted columns of the second scheme
are `w` times as large.

Calls that succeed on both schemes keep them matched. They add a column in both or in neither
(`Matched.extend`), drop the same columns (`Matched.applyFilter`, `Matched.retain`), and have one
answer: the same coefficients, and the same data (`Matched.respond`).

How the weights of two schemes belong together is left open here. A `Weighting` says what is asked
of the preconditioners, and `Weighting.Kept` that a call keeps it. The latter has to speak of the
columns as well, because a scheme that weights them anew may factorize them anew.
-/

namespace Cosimulation.Acceleration

open Factorization

/-- The settings, but for the blocks and their weights. -/
def Config.settings {α : Type} (c : Config α) : Config α :=
  { c with dataIds := [], preconditioner := {} }

/-! ## Histories -/

namespace History

variable {κ : Type} {rows rows' : List κ} {w : ℝ} {h h' g g' : History ℝ}

/-- The columns are relaid, those of residual moves `w` times as large. -/
structure Tied (rows rows' : List κ) (w : ℝ) (h h' : History ℝ) : Prop where
  residuals : List.Forall₂ (Relaid rows rows' w) h.residuals h'.residuals
  iterates : List.Forall₂ (Relaid rows rows' 1) h.iterates h'.iterates
  secondary : h'.secondary = h.secondary
  windows : h'.windows = h.windows

theorem empty_tied (rows rows' : List κ) (w : ℝ) : Tied rows rows' w .empty .empty :=
  ⟨.nil, .nil, rfl, rfl⟩

namespace Tied

theorem columns (h : Tied rows rows' w g g') : g'.columns = g.columns :=
  h.residuals.length_eq.symm

theorem secondaryColumns (h : Tied rows rows' w g g') (id : DataId) :
    g'.secondaryColumns id = g.secondaryColumns id :=
  congrArg (fun m => (OrderedMap.find? m id).getD []) h.secondary

theorem withWindows (ht : Tied rows rows' w h h') (ws : Windows) :
    Tied rows rows' w { h with windows := ws } { h' with windows := ws } :=
  ⟨ht.residuals, ht.iterates, ht.secondary, rfl⟩

theorem append (ht : Tied rows rows' w h h') {r r' x x' : Vec ℝ}
    (hr : Relaid rows rows' w r r') (hx : Relaid rows rows' 1 x x') :
    Tied rows rows' w (h.append r x) (h'.append r' x') :=
  ⟨List.rel_append ht.residuals (.cons hr .nil), List.rel_append ht.iterates (.cons hx .nil),
    ht.secondary, congrArg Windows.push ht.windows⟩

theorem appendSecondary (ht : Tied rows rows' w h h') (id : DataId) (column : Vec ℝ) :
    Tied rows rows' w (h.appendSecondary id column) (h'.appendSecondary id column) := by
  refine ⟨ht.residuals, ht.iterates, ?_, ht.windows⟩
  show OrderedMap.insert h'.secondary id (h'.secondaryColumns id ++ [column]) = _
  rw [ht.secondary, ht.secondaryColumns]
  rfl

theorem removeColumn (ht : Tied rows rows' w h h') {i : Nat} (hg : h.removeColumn i = .ok g)
    (hg' : h'.removeColumn i = .ok g') : Tied rows rows' w g g' := by
  obtain ⟨-, rfl⟩ := removeColumn_eq hg
  obtain ⟨-, rfl⟩ := removeColumn_eq hg'
  exact ⟨forall₂_eraseIdx ht.residuals i, forall₂_eraseIdx ht.iterates i,
    congrArg (fun m => OrderedMap.mapValues (fun columns => columns.eraseIdx i) m) ht.secondary,
    ht.windows⟩

theorem drop (ht : Tied rows rows' w h h') {i : Nat} (hg : h.drop i = .ok g)
    (hg' : h'.drop i = .ok g') : Tied rows rows' w g g' := by
  obtain ⟨k, hk, hg⟩ := bind_ok hg
  obtain ⟨k', hk', hg'⟩ := bind_ok hg'
  obtain rfl := Except.ok.inj hg
  obtain rfl := Except.ok.inj hg'
  have hkk := ht.removeColumn hk hk'
  exact ⟨hkk.residuals, hkk.iterates, hkk.secondary, congrArg (Windows.erase · i) hkk.windows⟩

theorem dropAll : ∀ {positions : List Nat} {h h' g g' : History ℝ}, Tied rows rows' w h h' →
    h.dropAll positions = .ok g → h'.dropAll positions = .ok g' → Tied rows rows' w g g' := by
  intro positions
  induction positions with
  | nil =>
    intro h h' g g' ht hg hg'
    obtain rfl := Except.ok.inj hg
    obtain rfl := Except.ok.inj hg'
    exact ht
  | cons i is ih =>
    intro h h' g g' ht hg hg'
    obtain ⟨k, hk, hg⟩ := bind_ok hg
    obtain ⟨k', hk', hg'⟩ := bind_ok hg'
    exact ih (ht.drop hk hk') hg hg'

end Tied

end History

/-- What two calls saw, stacked in two orders. -/
structure Snapshot.Relaid {κ : Type} (rows rows' : List κ) (n n' : Snapshot ℝ) : Prop where
  residual : Cosimulation.Relaid rows rows' 1 n.residual n'.residual
  iterate : Cosimulation.Relaid rows rows' 1 n.iterate n'.iterate

/-- What is asked of the preconditioners of two settings, for given lengths of the blocks: at least
that the weights of the second are `w` times as large. -/
structure Weighting (c c' : Config ℝ) where
  Agree : (DataId → Nat) → ℝ → Preconditioner ℝ → Preconditioner ℝ → Prop
  pos : ∀ {size w p p'}, Agree size w p p' → 0 < w
  weights : ∀ {size w p p'}, Agree size w p p' →
    Relaid (blockRows size c.dataIds) (blockRows size c'.dataIds) w p.weights p'.weights

namespace QuasiNewton

/-- The part of a state in which matched schemes do not differ, but for the history. -/
structure Outline (α : Type) where
  settings : Config α
  secondaryIds : List DataId
  lastSecondary : OrderedMap (Vec α)
  coefficients : Option (List α)
  firstIteration : Bool
  firstWindow : Bool
  pendingClear : Bool
  started : Bool

def outline {α : Type} (s : QuasiNewton α) : Outline α :=
  ⟨s.config.settings, s.secondaryIds, s.lastSecondary, s.coefficients, s.firstIteration,
    s.firstWindow, s.pendingClear, s.started⟩

/-- Nothing but the order and the weights of the primary blocks is different. -/
structure Matched {c c' : Config ℝ} (W : Weighting c c') (size : DataId → Nat) (w : ℝ)
    (s s' : QuasiNewton ℝ) : Prop where
  outline : s'.outline = s.outline
  agree : W.Agree size w s.preconditioner s'.preconditioner
  history : History.Tied (blockRows size c.dataIds) (blockRows size c'.dataIds) w s.history
    s'.history
  factorization : Similar (blockRows size c.dataIds) (blockRows size c'.dataIds) w s.factorization
    s'.factorization

section
variable {c c' : Config ℝ} {W : Weighting c c'} {size : DataId → Nat} {w : ℝ}
  {s s' t t' : QuasiNewton ℝ}

namespace Matched

theorem pos (h : Matched W size w s s') : 0 < w := W.pos h.agree

theorem columns (h : Matched W size w s s') : s'.columns = s.columns := h.history.columns

/-- A setting that has nothing to do with blocks and weights. -/
theorem setting (h : Matched W size w s s') {β : Type} (f : Config ℝ → β) :
    f s'.config.settings = f s.config.settings := congrArg (fun o => f o.settings) h.outline

theorem secondaryIds (h : Matched W size w s s') : s'.secondaryIds = s.secondaryIds :=
  congrArg Outline.secondaryIds h.outline

theorem maxIterationsUsed (h : Matched W size w s s') :
    s'.config.maxIterationsUsed = s.config.maxIterationsUsed :=
  h.setting Config.maxIterationsUsed

theorem firstIteration (h : Matched W size w s s') : s'.firstIteration = s.firstIteration :=
  congrArg Outline.firstIteration h.outline

/-! ## Dropping columns -/

theorem clear (h : Matched W size w s s') : Matched W size w s.clear s'.clear :=
  ⟨congrArg (fun o => { o with coefficients := none }) h.outline, h.agree, History.empty_tied _ _ w,
    empty_similar _ _ w _ _⟩

theorem discharge (h : Matched W size w s s') : Matched W size w s.discharge s'.discharge := by
  have hp : s'.pendingClear = s.pendingClear := congrArg Outline.pendingClear h.outline
  unfold QuasiNewton.discharge
  rw [hp]
  split
  next =>
    exact ⟨congrArg (fun o => { o with coefficients := none, pendingClear := false }) h.outline,
      h.agree, History.empty_tied _ _ w, empty_similar _ _ w _ _⟩
  next => exact h

theorem dropAll {positions : List Nat} (h : Matched W size w s s')
    (ht : s.dropAll positions = .ok t) (ht' : s'.dropAll positions = .ok t') :
    Matched W size w t t' := by
  obtain ⟨g, hg, ht⟩ := bind_ok ht
  obtain ⟨g', hg', ht'⟩ := bind_ok ht'
  obtain rfl := Except.ok.inj ht
  obtain rfl := Except.ok.inj ht'
  exact ⟨h.outline, h.agree, h.history.dropAll hg hg', h.factorization⟩

theorem drop {i : Nat} (h : Matched W size w s s') (ht : s.drop i = .ok t)
    (ht' : s'.drop i = .ok t') : Matched W size w t t' := by
  obtain ⟨f, hf, ht⟩ := bind_ok ht
  obtain ⟨g, hg, ht⟩ := bind_ok ht
  obtain ⟨f', hf', ht'⟩ := bind_ok ht'
  obtain ⟨g', hg', ht'⟩ := bind_ok ht'
  obtain rfl := Except.ok.inj ht
  obtain rfl := Except.ok.inj ht'
  exact ⟨h.outline, h.agree, h.history.drop hg hg', h.factorization.delete h.pos hf hf'⟩

/-! ## The newest column -/

theorem adopt {f f' : Factorization ℝ} {r r' x x' : Vec ℝ} (h : Matched W size w s s')
    (hf : Similar (blockRows size c.dataIds) (blockRows size c'.dataIds) w f f')
    (hr : Relaid (blockRows size c.dataIds) (blockRows size c'.dataIds) w r r')
    (hx : Relaid (blockRows size c.dataIds) (blockRows size c'.dataIds) 1 x x')
    (ht : s.adopt f r x = .ok t) (ht' : s'.adopt f' r' x' = .ok t') : Matched W size w t t' := by
  have hgrown : Matched W size w { s with factorization := f, history := s.history.append r x }
      { s' with factorization := f', history := s'.history.append r' x' } :=
    ⟨h.outline, h.agree, h.history.append hr hx, hf⟩
  unfold QuasiNewton.adopt at ht ht'
  dsimp only at ht ht'
  rw [hgrown.columns, h.maxIterationsUsed] at ht'
  split at ht
  next hover =>
    rw [if_pos hover] at ht'
    exact hgrown.drop ht ht'
  next hover =>
    rw [if_neg hover] at ht'
    obtain rfl := Except.ok.inj ht
    obtain rfl := Except.ok.inj ht'
    exact hgrown

/-- What is weighted in both schemes. -/
theorem apply (h : Matched W size w s s') {v v' x x' : Vec ℝ}
    (hv : Relaid (blockRows size c.dataIds) (blockRows size c'.dataIds) 1 v v')
    (hx : s.preconditioner.apply v = .ok x) (hx' : s'.preconditioner.apply v' = .ok x') :
    Relaid (blockRows size c.dataIds) (blockRows size c'.dataIds) w x x' := by
  unfold Preconditioner.apply at hx hx'
  split at hx
  next =>
    split at hx'
    next =>
      rw [← Except.ok.inj hx, ← Except.ok.inj hx']
      exact hv.zipWith (fun a b => by ring) (W.weights h.agree)
    next => cases hx'
  next => cases hx

/-- A column is added to both or to none. -/
theorem extend {now now' : Snapshot ℝ} {added added' : Bool} (h : Matched W size w s s')
    (hrows : c.dataIds.Perm c'.dataIds)
    (hnow : now.Relaid (blockRows size c.dataIds) (blockRows size c'.dataIds) now')
    (hlast : s.firstIteration = false → Option.Rel
      (Snapshot.Relaid (blockRows size c.dataIds) (blockRows size c'.dataIds)) s.last s'.last)
    (ht : s.extend now = .ok (t, added)) (ht' : s'.extend now' = .ok (t', added')) :
    added' = added ∧ Matched W size w t t' := by
  have hperm : (blockRows size c.dataIds).Perm (blockRows size c'.dataIds) := blockRows_perm hrows
  unfold QuasiNewton.extend at ht ht'
  rw [h.firstIteration, h.maxIterationsUsed] at ht'
  split at ht
  next hfirst =>
    rw [if_pos hfirst] at ht'
    obtain ⟨rfl, rfl⟩ := Prod.mk.inj (Except.ok.inj ht)
    obtain ⟨rfl, rfl⟩ := Prod.mk.inj (Except.ok.inj ht')
    exact ⟨rfl, h⟩
  next hfirst =>
    rw [if_neg hfirst] at ht'
    rw [not_or, Bool.not_eq_true] at hfirst
    generalize s.last = o at hlast ht
    generalize s'.last = o' at hlast ht'
    cases hlast hfirst.1 with
    | none =>
      obtain ⟨rfl, rfl⟩ := Prod.mk.inj (Except.ok.inj ht)
      obtain ⟨rfl, rfl⟩ := Prod.mk.inj (Except.ok.inj ht')
      exact ⟨rfl, h⟩
    | some hl =>
      obtain ⟨move, hmove, ht⟩ := bind_ok ht
      obtain ⟨move', hmove', ht'⟩ := bind_ok ht'
      obtain ⟨-, rfl⟩ := Vec.minus_ok_iff.1 hmove
      obtain ⟨-, rfl⟩ := Vec.minus_ok_iff.1 hmove'
      have hm := hnow.residual.sub hl.residual
      rw [hm.norm hperm zero_le_one, one_mul] at ht'
      split at ht
      next hsmall =>
        rw [if_pos hsmall] at ht'
        obtain ⟨rfl, rfl⟩ := Prod.mk.inj (Except.ok.inj ht)
        obtain ⟨rfl, rfl⟩ := Prod.mk.inj (Except.ok.inj ht')
        exact ⟨rfl, h⟩
      next hsmall =>
        rw [if_neg hsmall] at ht'
        obtain ⟨x, hx, ht⟩ := bind_ok ht
        obtain ⟨r, hr, ht⟩ := bind_ok ht
        obtain ⟨o, ho, ht⟩ := bind_ok ht
        obtain ⟨x', hx', ht'⟩ := bind_ok ht'
        obtain ⟨r', hr', ht'⟩ := bind_ok ht'
        obtain ⟨o', ho', ht'⟩ := bind_ok ht'
        obtain ⟨-, rfl⟩ := Vec.minus_ok_iff.1 hx
        obtain ⟨-, rfl⟩ := Vec.minus_ok_iff.1 hx'
        have hd := h.discharge
        have hrr := hd.apply hm hr hr'
        cases hd.factorization.insert hperm h.pos hrr ho ho' with
        | none =>
          obtain ⟨rfl, rfl⟩ := Prod.mk.inj (Except.ok.inj ht)
          obtain ⟨rfl, rfl⟩ := Prod.mk.inj (Except.ok.inj ht')
          exact ⟨rfl, hd⟩
        | some hf =>
          obtain ⟨t₁, ha, ht⟩ := bind_ok ht
          obtain ⟨t₁', ha', ht'⟩ := bind_ok ht'
          obtain ⟨rfl, rfl⟩ := Prod.mk.inj (Except.ok.inj ht)
          obtain ⟨rfl, rfl⟩ := Prod.mk.inj (Except.ok.inj ht')
          exact ⟨rfl, hd.adopt hf hrr (hnow.iterate.sub hl.iterate) ha ha'⟩

/-! ## The secondary blocks and the filter -/

theorem appendMove {added : Bool} {id : DataId} {values : Vec ℝ} {g g' : History ℝ}
    (h : Matched W size w s s') (hg : s.appendMove added id values = .ok g)
    (hg' : s'.appendMove added id values = .ok g') :
    History.Tied (blockRows size c.dataIds) (blockRows size c'.dataIds) w g g' := by
  have hmove : s'.secondaryMove id values = s.secondaryMove id values := by
    have hl : s'.lastSecondary = s.lastSecondary := congrArg Outline.lastSecondary h.outline
    rw [secondaryMove, secondaryMove, hl]
  unfold QuasiNewton.appendMove at hg hg'
  rw [hmove] at hg'
  split at hg
  next hadd =>
    rw [if_pos hadd] at hg'
    obtain ⟨move, hm, hg⟩ := bind_ok hg
    obtain ⟨move', hm', hg'⟩ := bind_ok hg'
    obtain rfl := Except.ok.inj (hm.symm.trans hm')
    rw [← Except.ok.inj hg, ← Except.ok.inj hg']
    exact h.history.appendSecondary id move
  next hadd =>
    rw [if_neg hadd] at hg'
    rw [← Except.ok.inj hg, ← Except.ok.inj hg']
    exact h.history

theorem noteSecondary {data : DataMap ℝ} {added : Bool} : ∀ {ids : List DataId}
    {s s' t t' : QuasiNewton ℝ}, Matched W size w s s' →
      QuasiNewton.noteSecondary data added s ids = .ok t →
      QuasiNewton.noteSecondary data added s' ids = .ok t' → Matched W size w t t' := by
  intro ids
  induction ids with
  | nil =>
    intro s s' t t' h ht ht'
    obtain rfl := Except.ok.inj ht
    obtain rfl := Except.ok.inj ht'
    exact h
  | cons id ids ih =>
    intro s s' t t' h ht ht'
    obtain ⟨g, hg, ht⟩ := bind_ok ht
    obtain ⟨g', hg', ht'⟩ := bind_ok ht'
    have hnoted : Matched W size w
        { s with history := g, lastSecondary := s.lastSecondary.insert id (data.valuesOf id) }
        { s' with history := g', lastSecondary := s'.lastSecondary.insert id (data.valuesOf id) } :=
      ⟨congrArg (fun o => { o with
          lastSecondary := OrderedMap.insert o.lastSecondary id (data.valuesOf id) }) h.outline,
        h.agree, h.appendMove hg hg', h.factorization⟩
    exact ih hnoted ht ht'

theorem applyFilter {added : Bool} (h : Matched W size w s s') (ht : s.applyFilter added = .ok t)
    (ht' : s'.applyFilter added = .ok t') : Matched W size w t t' := by
  have hfilter : s'.filter = s.filter :=
    h.setting fun k => (⟨k.filter, k.singularityLimit⟩ : Filter ℝ)
  unfold QuasiNewton.applyFilter at ht ht'
  rw [hfilter] at ht'
  split at ht
  next hadd =>
    rw [if_pos hadd] at ht'
    obtain ⟨⟨f, removed⟩, hf, ht⟩ := bind_ok ht
    obtain ⟨⟨f', removed'⟩, hf', ht'⟩ := bind_ok ht'
    obtain ⟨rfl, hff⟩ := Filter.apply_similar h.pos h.factorization hf hf'
    have hleft : Matched W size w { s with factorization := f } { s' with factorization := f' } :=
      ⟨h.outline, h.agree, h.history, hff⟩
    exact hleft.dropAll ht ht'
  next hadd =>
    rw [if_neg hadd] at ht'
    obtain rfl := Except.ok.inj ht
    obtain rfl := Except.ok.inj ht'
    exact h

end Matched

end

end QuasiNewton

open QuasiNewton

/-- Preconditioners of the two settings agree when they are fitted to blocks, and keep agreeing when
they take note of a residual and when they weight the columns of two matched schemes anew. -/
structure Weighting.Kept {c c' : Config ℝ} (W : Weighting c c') : Prop where
  fit : ∀ {p p' : Preconditioner ℝ} (size : DataId → Nat), p.config = c.preconditioner →
    p'.config = c'.preconditioner →
      ∃ w, W.Agree size w (p.fit (c.dataIds.map size)) (p'.fit (c'.dataIds.map size))
  accumulate : ∀ {size w p p' q q' r r'}, W.Agree size w p p' →
    Relaid (blockRows size c.dataIds) (blockRows size c'.dataIds) 1 r r' →
      p.accumulate r = .ok q → p'.accumulate r' = .ok q' → W.Agree size w q q'
  reweigh : ∀ {size w s s' t t' v v' r r' n}, Matched W size w s s' →
    Factorizes n s'.factorization s'.history.residuals →
    Relaid (blockRows size c.dataIds) (blockRows size c'.dataIds) 1 v v' →
    Relaid (blockRows size c.dataIds) (blockRows size c'.dataIds) 1 r r' →
      s.reweigh v r = .ok t → s'.reweigh v' r' = .ok t' → ∃ w, Matched W size w t t'

namespace QuasiNewton.Matched

variable {c c' : Config ℝ} {W : Weighting c c'} {size : DataId → Nat} {w : ℝ}
  {s s' t t' : QuasiNewton ℝ} {d d₁ d₂ : DataMap ℝ}

/-- Both learn the same. -/
theorem learn (hW : W.Kept) (hrows : c.dataIds.Perm c'.dataIds) (h : Matched W size w s s')
    {n : Nat} (hf : Factorizes n s'.factorization s'.history.residuals) {now now' : Snapshot ℝ}
    (hnow : now.Relaid (blockRows size c.dataIds) (blockRows size c'.dataIds) now')
    (hlast : s.firstIteration = false → Option.Rel
      (Snapshot.Relaid (blockRows size c.dataIds) (blockRows size c'.dataIds)) s.last s'.last)
    (ht : s.learn d now = .ok t) (ht' : s'.learn d now' = .ok t') :
    ∃ w, Matched W size w t t' := by
  obtain ⟨p, hp, ht⟩ := bind_ok ht
  obtain ⟨s₁, h₁, ht⟩ := bind_ok ht
  obtain ⟨⟨s₂, added⟩, h₂, ht⟩ := bind_ok ht
  obtain ⟨s₃, h₃, ht⟩ := bind_ok ht
  obtain ⟨p', hp', ht'⟩ := bind_ok ht'
  obtain ⟨s₁', h₁', ht'⟩ := bind_ok ht'
  obtain ⟨⟨s₂', added'⟩, h₂', ht'⟩ := bind_ok ht'
  obtain ⟨s₃', h₃', ht'⟩ := bind_ok ht'
  have hnoted : Matched W size w { s with preconditioner := p } { s' with preconditioner := p' } :=
    ⟨h.outline, hW.accumulate h.agree hnow.residual hp hp', h.history, h.factorization⟩
  obtain ⟨w, hm₁⟩ := hW.reweigh hnoted hf hnow.iterate hnow.residual h₁ h₁'
  -- weighting anew does not touch what the last call saw
  have hsetup := (reweigh_framed h₁).setup
  have hsetup' := (reweigh_framed h₁').setup
  obtain ⟨rfl, hm₂⟩ := hm₁.extend hrows hnow (by
    rw [hsetup.firstIteration, hsetup.last, hsetup'.last]
    exact hlast) h₂ h₂'
  rw [hm₂.secondaryIds] at h₃'
  exact ⟨w, (hm₂.noteSecondary h₃ h₃').applyFilter ht ht'⟩

/-! ## The answer to a call -/

theorem solve (hrows : c.dataIds.Perm c'.dataIds) (h : Matched W size w s s') {r r' : Vec ℝ}
    (hr : Relaid (blockRows size c.dataIds) (blockRows size c'.dataIds) 1 r r')
    {a a' : Option (List ℝ)} (ha : s.solve r = .ok a) (ha' : s'.solve r' = .ok a') : a' = a := by
  have hrelax : s'.relaxesOnly = s.relaxesOnly :=
    congrArg (fun o : Outline ℝ => o.firstIteration &&
      (o.firstWindow || o.settings.forceInitialRelaxation)) h.outline
  unfold QuasiNewton.solve at ha ha'
  rw [hrelax] at ha'
  split at ha
  next hrelaxes =>
    rw [if_pos hrelaxes] at ha'
    rw [← Except.ok.inj ha, ← Except.ok.inj ha']
  next hrelaxes =>
    rw [if_neg hrelaxes] at ha'
    obtain ⟨x, hx, ha⟩ := bind_ok ha
    obtain ⟨x', hx', ha'⟩ := bind_ok ha'
    exact h.factorization.solve (blockRows_perm hrows) h.pos (h.apply hr hx hx') ha ha'

theorem moveSecondary (h : Matched W size w s s') (a : List ℝ) : ∀ (ids : List DataId)
    (d : DataMap ℝ), s'.moveSecondary a d ids = s.moveSecondary a d ids := by
  intro ids
  induction ids with
  | nil => exact fun _ => rfl
  | cons id ids ih =>
    intro d
    rw [QuasiNewton.moveSecondary, QuasiNewton.moveSecondary, h.history.secondaryColumns]
    exact bind_congr fun d' => ih d'

/-- The blocks of both schemes, in two orders. -/
theorem trackedIds_perm (hrows : c.dataIds.Perm c'.dataIds) (h : Matched W size w s s')
    (hs : s.config = c) (hs' : s'.config = c') : s.trackedIds.Perm s'.trackedIds := by
  rw [trackedIds, trackedIds, h.secondaryIds, hs, hs']
  exact hrows.append_right _

/-- Both move or relax the blocks, and leave the same data. -/
theorem advance (hrows : c.dataIds.Perm c'.dataIds) (h : Matched W size w s s')
    (hs : s.config = c) (hs' : s'.config = c') (hnodup : s.trackedIds.Nodup)
    (hl : ∀ id ∈ c.dataIds, (d.valuesOf id).length = size id) {x x' : Vec ℝ}
    (hx : Relaid (blockRows size c.dataIds) (blockRows size c'.dataIds) 1 x x')
    {a : Option (List ℝ)} (h₁ : s.advance d x a = .ok d₁) (h₂ : s'.advance d x' a = .ok d₂) :
    d₁ = d₂ := by
  cases a with
  | none =>
    have hω : s'.config.initialRelaxation = s.config.initialRelaxation :=
      h.setting Config.initialRelaxation
    unfold QuasiNewton.advance at h₁ h₂
    rw [hω] at h₂
    exact DataMap.modifyAll_perm (h.trackedIds_perm hrows hs hs') hnodup h₁ h₂
  | some a =>
    obtain ⟨update, hu, h₁⟩ := bind_ok h₁
    obtain ⟨moved, hm, h₁⟩ := bind_ok h₁
    obtain ⟨update', hu', h₂⟩ := bind_ok h₂
    obtain ⟨moved', hm', h₂⟩ := bind_ok h₂
    have hstill := Relaid.zeros (blockRows size c.dataIds) (blockRows size c'.dataIds) 1
    rw [hx.length] at hu
    rw [hx.length'] at hu'
    have hupdate := Relaid.plusCombination a h.history.iterates hstill hu hu'
    rw [hs] at hm
    rw [hs'] at hm'
    have hprim : c.dataIds.Nodup := by
      rw [trackedIds, hs] at hnodup
      exact (List.nodup_append.1 hnodup).1
    obtain rfl := DataMap.unstack_relaid hrows hprim hl (hx.add hupdate) hm hm'
    rw [h.moveSecondary, h.secondaryIds] at h₂
    exact Except.ok.inj (h₁.symm.trans h₂)

/-- Both answer with the same coefficients and the same data. -/
theorem respond (hrows : c.dataIds.Perm c'.dataIds) (h : Matched W size w s s')
    (hs : s.config = c) (hs' : s'.config = c') (hnodup : s.trackedIds.Nodup)
    (hl : ∀ id ∈ c.dataIds, (d.valuesOf id).length = size id) {now now' : Snapshot ℝ}
    (hnow : now.Relaid (blockRows size c.dataIds) (blockRows size c'.dataIds) now')
    {a a' : Option (List ℝ)} (h₁ : s.respond d now = .ok (a, d₁))
    (h₂ : s'.respond d now' = .ok (a', d₂)) : a' = a ∧ d₂ = d₁ := by
  obtain ⟨b, hb, h₁⟩ := bind_ok h₁
  obtain ⟨moved, hm, h₁⟩ := bind_ok h₁
  obtain ⟨stored, hst, h₁⟩ := bind_ok h₁
  obtain ⟨b', hb', h₂⟩ := bind_ok h₂
  obtain ⟨moved', hm', h₂⟩ := bind_ok h₂
  obtain ⟨stored', hst', h₂⟩ := bind_ok h₂
  obtain ⟨rfl, rfl⟩ := Prod.mk.inj (Except.ok.inj h₁)
  obtain ⟨rfl, rfl⟩ := Prod.mk.inj (Except.ok.inj h₂)
  obtain rfl := h.solve hrows hnow.residual hb hb'
  obtain rfl := h.advance hrows hs hs' hnodup hl hnow.iterate hm hm'
  exact ⟨rfl, (DataMap.modifyAll_perm (h.trackedIds_perm hrows hs hs') hnodup hst hst').symm⟩

/-! ## The end of a window -/

theorem removeOldest : ∀ {m : Nat} {s s' t t' : QuasiNewton ℝ}, Matched W size w s s' →
    s.removeOldest m = .ok t → s'.removeOldest m = .ok t' → Matched W size w t t' := by
  intro m
  induction m with
  | zero =>
    intro s s' t t' h ht ht'
    obtain rfl := Except.ok.inj ht
    obtain rfl := Except.ok.inj ht'
    exact h
  | succ m ih =>
    intro s s' t t' h ht ht'
    obtain ⟨f, hf, ht⟩ := bind_ok ht
    obtain ⟨g, hg, ht⟩ := bind_ok ht
    obtain ⟨f', hf', ht'⟩ := bind_ok ht'
    obtain ⟨g', hg', ht'⟩ := bind_ok ht'
    have hshorter : Matched W size w { s with factorization := f, history := g }
        { s' with factorization := f', history := g' } :=
      ⟨h.outline, h.agree, h.history.removeColumn hg hg', h.factorization.delete h.pos hf hf'⟩
    exact ih hshorter ht ht'

theorem removeWindows : ∀ {m : Nat} {s s' t t' : QuasiNewton ℝ}, Matched W size w s s' →
    s.removeWindows m = .ok t → s'.removeWindows m = .ok t' → Matched W size w t t' := by
  intro m
  induction m with
  | zero =>
    intro s s' t t' h ht ht'
    obtain rfl := Except.ok.inj ht
    obtain rfl := Except.ok.inj ht'
    exact h
  | succ m ih =>
    intro s s' t t' h ht ht'
    rw [QuasiNewton.removeWindows] at ht ht'
    rw [h.history.windows] at ht'
    cases hsizes : s.history.windows.sizes with
    | nil =>
      rw [hsizes] at ht ht'
      obtain rfl := Except.ok.inj ht
      obtain rfl := Except.ok.inj ht'
      exact h
    | cons n ns =>
      rw [hsizes] at ht ht'
      obtain ⟨k, hk, ht⟩ := bind_ok ht
      obtain ⟨k', hk', ht'⟩ := bind_ok ht'
      have hfront : Matched W size w
          { s with history := { s.history with windows := ⟨ns⟩ } }
          { s' with history := { s'.history with windows := ⟨ns⟩ } } :=
        ⟨h.outline, h.agree, h.history.withWindows ⟨ns⟩, h.factorization⟩
      exact ih (hfront.removeOldest hk hk') ht ht'

/-- Both keep the same columns. -/
theorem retain (h : Matched W size w s s') (ht : s.retain = .ok t) (ht' : s'.retain = .ok t') :
    Matched W size w t t' := by
  have hreused : s'.config.timestepsReused = s.config.timestepsReused :=
    h.setting Config.timestepsReused
  have hforce : s'.config.forceInitialRelaxation = s.config.forceInitialRelaxation :=
    h.setting Config.forceInitialRelaxation
  unfold QuasiNewton.retain at ht ht'
  rw [hreused, hforce, h.history.windows] at ht'
  split at ht
  next hzero =>
    rw [if_pos hzero] at ht'
    split at ht
    next hf =>
      rw [if_pos hf] at ht'
      obtain rfl := Except.ok.inj ht
      obtain rfl := Except.ok.inj ht'
      exact h.clear
    next hf =>
      rw [if_neg hf] at ht'
      obtain rfl := Except.ok.inj ht
      obtain rfl := Except.ok.inj ht'
      exact ⟨congrArg (fun o => { o with pendingClear := true }) h.outline, h.agree, h.history,
        h.factorization⟩
  next hzero =>
    rw [if_neg hzero] at ht'
    exact h.removeWindows ht ht'

end QuasiNewton.Matched

end Cosimulation.Acceleration

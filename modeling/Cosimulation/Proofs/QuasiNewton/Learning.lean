import Cosimulation.Proofs.QuasiNewton.Columns

/-!
# What one call learns

A call that moves the iterate has changed the history in up to five ways: columns are weighted anew,
a column is appended, the oldest is dropped, the secondary blocks get their part, and the filter
drops columns. Each of these keeps the columns in step: if the columns of the history and of the
factorization stand for visits before, they do so afterwards (`Learnt`).

What a weighted column has to do with the residual move it stands for depends on the arithmetic, so
it is left open here. A `Weighing` is a relation between weights, vectors and weighted vectors that
weighting establishes and a change of weights keeps.
-/

namespace Cosimulation.Acceleration

variable {α : Type} [Scalar α]

/-- What can be said of weights and of weighted vectors through all changes of the weights. -/
structure Weighing (α : Type) [Scalar α] where
  /-- Said of the preconditioner at all times. -/
  Good : Preconditioner α → Prop
  /-- Said of weights, a vector, and the vector as it was weighted. -/
  Scaled : Vec α → Vec α → Vec α → Prop
  good_new : ∀ c, Good (.new c)
  good_fit : ∀ p sizes, Good (Preconditioner.fit p sizes)
  good_accumulate : ∀ {p p' r}, Good p → p.accumulate r = .ok p' → Good p'
  good_update : ∀ {p p' v r}, Good p → p.update v r = .ok p' → Good p'
  good_acknowledge : ∀ {p}, Good p → Good p.acknowledge
  apply : ∀ {p v x}, Good p → p.apply v = .ok x → Scaled p.weights v x
  again : ∀ {p p' v r u x y z}, Good p → p.frozen = false → p.update v r = .ok p' →
    Scaled p.weights u x → p.revert x = .ok y → p'.apply y = .ok z → Scaled p'.weights u z

/-- Nothing is said. -/
def Weighing.silent : Weighing α where
  Good _ := True
  Scaled _ _ _ := True
  good_new _ := True.intro
  good_fit _ _ := True.intro
  good_accumulate _ _ := True.intro
  good_update _ _ := True.intro
  good_acknowledge _ := True.intro
  apply _ _ := True.intro
  again _ _ _ _ _ _ := True.intro

/-- A weighted column stands for a visit, one of the first `n`, that is not the first of its window.
-/
def Weighing.Column (W : Weighing α) (χ : Chronicle α) (n : Nat) (weights : Vec α) (i : Nat)
    (x : Vec α) : Prop :=
  i < n ∧ χ.Continues i ∧ W.Scaled weights (χ.residualMove i) x

namespace QuasiNewton

/-- The columns of a scheme stand for visits, those of the secondary blocks for `ks'`. -/
structure Learnt (W : Weighing α) (χ : Chronicle α) (n : Nat) (s : QuasiNewton α)
    (ks ks' ws : List Nat) : Prop where
  good : W.Good s.preconditioner
  records : s.history.Records (W.Column χ n s.preconditioner.weights) χ s.secondaryIds ks ks' ws
  shaped : s.factorization.Shaped
  columns : s.factorization.columns = ks.length
  ascending : ks.Pairwise (· < ·)

/-- All columns stand for the same visits, the last window being the current one. -/
def InStep (W : Weighing α) (χ : Chronicle α) (n current : Nat) (s : QuasiNewton α) : Prop :=
  ∃ ks ws, ws.getLast? = some current ∧ Learnt W χ n s ks ks ws

/-- What no call changes before it is answered, but for the secondary blocks. -/
structure Setup (α : Type) where
  config : Config α
  secondaryIds : List DataId
  last : Option (Snapshot α)
  lastSecondary : OrderedMap (Vec α)
  sizes : List (DataId × Nat)
  firstIteration : Bool
  firstWindow : Bool
  started : Bool

section
variable {α : Type}

def setup (s : QuasiNewton α) : Setup α :=
  ⟨s.config, s.secondaryIds, s.last, s.lastSecondary, s.sizes, s.firstIteration, s.firstWindow,
    s.started⟩

/-- Nothing but the columns and their weights differs. -/
def SameSetup (s s' : QuasiNewton α) : Prop := s'.setup = s.setup

namespace SameSetup

variable {s s' s'' : QuasiNewton α}

theorem trans (h : SameSetup s s') (h' : SameSetup s' s'') : SameSetup s s'' := Eq.trans h' h

theorem config (h : SameSetup s s') : s'.config = s.config := congrArg Setup.config h

theorem secondaryIds (h : SameSetup s s') : s'.secondaryIds = s.secondaryIds :=
  congrArg Setup.secondaryIds h

theorem last (h : SameSetup s s') : s'.last = s.last := congrArg Setup.last h

theorem lastSecondary (h : SameSetup s s') : s'.lastSecondary = s.lastSecondary :=
  congrArg Setup.lastSecondary h

theorem sizes (h : SameSetup s s') : s'.sizes = s.sizes := congrArg Setup.sizes h

theorem firstIteration (h : SameSetup s s') : s'.firstIteration = s.firstIteration :=
  congrArg Setup.firstIteration h

theorem firstWindow (h : SameSetup s s') : s'.firstWindow = s.firstWindow :=
  congrArg Setup.firstWindow h

theorem started (h : SameSetup s s') : s'.started = s.started := congrArg Setup.started h

/-- Only the secondary blocks were noted in between. -/
theorem withLastSecondary (h : SameSetup s s') (m : OrderedMap (Vec α)) :
    SameSetup { s with lastSecondary := m } { s' with lastSecondary := m } := by
  have hm : { s'.setup with lastSecondary := m } = { s.setup with lastSecondary := m } := by
    rw [show s'.setup = s.setup from h]
  exact hm

end SameSetup

end

variable {W : Weighing α} {χ : Chronicle α} {n current : Nat} {s s' : QuasiNewton α}
  {ks ks' ws : List Nat}

/-! ## Dropping columns -/

omit [Scalar α] in
theorem eraseAll_pairwise (positions : List Nat) : ∀ {ks : List Nat}, ks.Pairwise (· < ·) →
    (eraseAll ks positions).Pairwise (· < ·) := by
  induction positions with
  | nil => intro ks h; exact h
  | cons i is ih => intro ks h; exact ih (h.sublist (List.eraseIdx_sublist ks i))

/-- Columns that the factorization has lost are dropped from the history. -/
theorem dropAll_inStep {positions : List Nat} (hd : s.dropAll positions = .ok s')
    (hg : W.Good s.preconditioner)
    (hr : s.history.Records (W.Column χ n s.preconditioner.weights) χ s.secondaryIds ks ks ws)
    (hlast : ws.getLast? = some current) (ha : ks.Pairwise (· < ·)) (hf : s.factorization.Shaped)
    (hc : s.factorization.columns + positions.length = ks.length) :
    SameSetup s s' ∧ InStep W χ n current s' := by
  obtain ⟨h, hh, hd⟩ := bind_ok hd
  obtain rfl := Except.ok.inj hd
  obtain ⟨hl, ws', hlast', hr'⟩ := hr.dropAll positions hh
  refine ⟨rfl, eraseAll ks positions, ws', hlast'.trans hlast, hg,
    hr', hf, ?_, eraseAll_pairwise positions ha⟩
  show s.factorization.columns = _
  omega

/-- A column that goes from the factorization and from the history. -/
theorem drop_learnt {i : Nat} (h : Learnt W χ n s ks ks' ws) (hd : s.drop i = .ok s') :
    SameSetup s s' ∧ s'.preconditioner = s.preconditioner ∧ ∃ ws', ws'.getLast? = ws.getLast? ∧
      Learnt W χ n s' (ks.eraseIdx i) (ks'.eraseIdx i) ws' := by
  obtain ⟨f, hf, hd⟩ := bind_ok hd
  obtain ⟨g, hg, hd⟩ := bind_ok hd
  obtain rfl := Except.ok.inj hd
  obtain ⟨hshaped, -, hcols, -⟩ := Factorization.delete_shaped h.shaped hf
  obtain ⟨hi, ws', hlast, hr⟩ := h.records.drop hg
  refine ⟨rfl, rfl, ws', hlast, h.good, hr, hshaped, ?_,
    h.ascending.sublist (List.eraseIdx_sublist ks i)⟩
  have hk := h.columns
  rw [List.length_eraseIdx, if_pos hi]
  show f.columns = _
  omega

/-- A scheme whose history was dropped. -/
theorem clear_learnt (hg : W.Good s.preconditioner) :
    Learnt W χ n s.clear [] [] [current] :=
  ⟨hg, History.empty_records _ _ _ current, Factorization.empty_shaped _, rfl, List.Pairwise.nil⟩

theorem discharge_inStep (h : InStep W χ n current s) :
    SameSetup s s.discharge ∧ s.discharge.preconditioner = s.preconditioner ∧
      InStep W χ n current s.discharge := by
  unfold discharge
  split
  next =>
    obtain ⟨ks, ws, -, hl⟩ := h
    refine ⟨rfl, rfl, [], [current], rfl, ?_⟩
    exact ⟨hl.good, History.empty_records _ _ _ current, Factorization.empty_shaped _, rfl,
      List.Pairwise.nil⟩
  next => exact ⟨rfl, rfl, h⟩

/-! ## Weighting anew -/

omit [Scalar α] in
/-- What holds of each entry before a computation on all entries, and what it makes hold. -/
theorem forall₂_mapM {β γ δ ε : Type} {R : β → γ → Prop} {R' : β → δ → Prop}
    {f : γ → Except ε δ} (hf : ∀ a b c, R a b → f b = .ok c → R' a c) {xs : List β} {ys : List γ}
    (h : List.Forall₂ R xs ys) : ∀ {zs : List δ}, ys.mapM f = .ok zs → List.Forall₂ R' xs zs := by
  induction h with
  | nil =>
    intro zs hz
    obtain rfl := Except.ok.inj hz
    exact .nil
  | cons hab _ ih =>
    intro zs hz
    rw [List.mapM_cons] at hz
    obtain ⟨c, hc, hz⟩ := bind_ok hz
    obtain ⟨cs, hcs, hz⟩ := bind_ok hz
    obtain rfl := Except.ok.inj hz
    exact .cons (hf _ _ _ hab hc) (ih hcs)

theorem reweigh_inStep {v r : Vec α} (h : InStep W χ n current s) (hr : s.reweigh v r = .ok s') :
    SameSetup s s' ∧ InStep W χ n current s' := by
  obtain ⟨ks, ws, hlast, hl⟩ := h
  unfold reweigh at hr
  split at hr
  next =>
    obtain rfl := Except.ok.inj hr
    exact ⟨rfl, ks, ws, hlast, hl⟩
  next hfr =>
    obtain ⟨unscaled, hu, hr⟩ := bind_ok hr
    obtain ⟨p, hp, hr⟩ := bind_ok hr
    obtain ⟨residuals, hres, hr⟩ := bind_ok hr
    have hgood := W.good_update hl.good hp
    -- the vectors in between are only known by how they come about
    have hun : List.Forall₂ (fun i y => ∃ x,
        W.Column χ n s.preconditioner.weights i x ∧
          s.preconditioner.revert x = .ok y) ks unscaled :=
      forall₂_mapM (fun i x y hx hy => ⟨x, hx, hy⟩) hl.records.residuals hu
    have hcols : List.Forall₂ (W.Column χ n p.weights) ks residuals := by
      refine forall₂_mapM ?_ hun hres
      rintro i y z ⟨x, ⟨hi, hcont, hsc⟩, hy⟩ hz
      exact ⟨hi, hcont, W.again hl.good (Bool.eq_false_iff.2 fun h => hfr (.inr h)) hp hsc hy hz⟩
    dsimp only at hr
    split at hr
    next =>
      -- the columns that the rebuild refused are still in the history
      obtain ⟨⟨f, refused⟩, hf, hr⟩ := bind_ok hr
      obtain ⟨s₁, hd, hr⟩ := bind_ok hr
      obtain rfl := Except.ok.inj hr
      obtain ⟨hshaped, -, hcount⟩ := Factorization.rebuild_shaped hf
      have hlen : f.columns + refused.reverse.length = ks.length := by
        rw [List.length_reverse, hcount, hcols.length_eq]
      obtain ⟨hsame, ks', ws', hlast', hl'⟩ := dropAll_inStep hd hgood
        ⟨⟨hcols, hl.records.iterates, hl.records.secondary⟩, hl.records.windows⟩ hlast hl.ascending
        hshaped hlen
      refine ⟨hsame, ks', ws', hlast', ?_⟩
      exact ⟨W.good_acknowledge hl'.good, hl'.records, hl'.shaped, hl'.columns, hl'.ascending⟩
    next =>
      obtain rfl := Except.ok.inj hr
      exact ⟨rfl, ks, ws, hlast, hgood,
        ⟨⟨hcols, hl.records.iterates, hl.records.secondary⟩, hl.records.windows⟩, hl.shaped,
        hl.columns, hl.ascending⟩

/-! ## The newest column -/

/-- A larger number of visits to choose from. -/
theorem Learnt.mono {m : Nat} (h : Learnt W χ n s ks ks' ws) (hnm : n ≤ m) :
    Learnt W χ m s ks ks' ws :=
  ⟨h.good, h.records.congr (fun _ _ _ hx => ⟨Nat.lt_of_lt_of_le hx.1 hnm, hx.2⟩) (fun _ _ => rfl)
    (fun _ _ _ _ => rfl) (fun _ _ => rfl), h.shaped, h.columns, h.ascending⟩

theorem Learnt.lt (h : Learnt W χ n s ks ks' ws) : ∀ i ∈ ks, i < n := by
  intro i hi
  obtain ⟨j, hj, rfl⟩ := List.mem_iff_getElem.1 hi
  exact (h.records.residuals.get hj (h.records.residuals.length_eq ▸ hj)).1

/-- A column for visit `n` is appended to the primary lists, and the oldest may go. The lists of the
secondary blocks lose their oldest column along with them. -/
theorem adopt_learnt {f : Factorization α} {residual iterate : Vec α}
    (h : Learnt W χ n s ks ks ws) (hmax : s.config.maxIterationsUsed ≠ 0)
    (hlast : ws.getLast? = some (χ.windowOf n)) (hcont : χ.Continues n)
    (hsc : W.Scaled s.preconditioner.weights (χ.residualMove n) residual)
    (hit : iterate = χ.iterateMove n) (hins : s.factorization.insert residual = .ok (some f))
    (ha : s.adopt f residual iterate = .ok s') :
    SameSetup s s' ∧ ∃ ks' ws', ws'.getLast? = some (χ.windowOf n) ∧
      Learnt W χ (n + 1) s' (ks' ++ [n]) ks' ws' := by
  obtain ⟨hshaped, -, hcols⟩ := Factorization.insert_shaped h.shaped hins
  have hup := h.mono (Nat.le_succ n)
  have hgrown : Learnt W χ (n + 1)
      { s with factorization := f, history := s.history.append residual iterate }
      (ks ++ [n]) ks ws :=
    ⟨h.good, hup.records.append ⟨Nat.lt_succ_self n, hcont, hsc⟩ hit hlast, hshaped,
      by rw [hcols, h.columns, List.length_append]; rfl,
      List.pairwise_append.2 ⟨h.ascending, List.pairwise_singleton _ _, fun i hi j hj => by
        rw [List.mem_singleton.1 hj]
        exact h.lt i hi⟩⟩
  unfold adopt at ha
  dsimp only at ha
  split at ha
  next hover =>
    -- there are two columns at least, so the newest one stays
    have hne : ks ≠ [] := by
      rintro rfl
      have hc : (s.history.append residual iterate).residuals.length = 1 :=
        hgrown.records.residuals.length_eq.symm
      have hlt : s.config.maxIterationsUsed <
          (s.history.append residual iterate).residuals.length := hover
      omega
    obtain ⟨hsame, -, ws', hlast', hl⟩ := drop_learnt hgrown ha
    refine ⟨hsame, ks.eraseIdx 0, ws',
      hlast'.trans hlast, ?_⟩
    rwa [List.eraseIdx_append_of_lt_length (List.length_pos_iff.2 hne)] at hl
  next =>
    obtain rfl := Except.ok.inj ha
    exact ⟨rfl, ks, ws, hlast, hgrown⟩

/-- After visit `n`, the newest column may stand for it in the primary lists. -/
theorem extend_inStep {now : Snapshot α} {added : Bool} (h : InStep W χ n (χ.windowOf n) s)
    (hnow : now = ⟨χ.residual n, χ.iterate n⟩)
    (hlast : s.firstIteration = false →
      χ.Continues n ∧ s.last = some ⟨χ.residual (n - 1), χ.iterate (n - 1)⟩)
    (he : s.extend now = .ok (s', added)) :
    SameSetup s s' ∧
      ((added = false ∧ InStep W χ n (χ.windowOf n) s') ∨
        (added = true ∧ s.firstIteration = false ∧ ∃ ks ws, ws.getLast? = some (χ.windowOf n) ∧
          Learnt W χ (n + 1) s' (ks ++ [n]) ks ws)) := by
  unfold extend at he
  split at he
  next =>
    obtain ⟨rfl, rfl⟩ := Prod.mk.inj (Except.ok.inj he)
    exact ⟨rfl, .inl ⟨rfl, h⟩⟩
  next hfirst =>
    rw [not_or, Bool.not_eq_true] at hfirst
    obtain ⟨hcont, hl⟩ := hlast hfirst.1
    rw [hl] at he
    dsimp only at he
    obtain ⟨move, hmove, he⟩ := bind_ok he
    split at he
    next =>
      obtain ⟨rfl, rfl⟩ := Prod.mk.inj (Except.ok.inj he)
      exact ⟨rfl, .inl ⟨rfl, h⟩⟩
    next =>
      obtain ⟨iterate, hit, he⟩ := bind_ok he
      obtain ⟨residual, hres, he⟩ := bind_ok he
      obtain ⟨o, hins, he⟩ := bind_ok he
      -- a refused column has made the history go all the same, where that was pending
      obtain ⟨hsame, hpre, ks, ws, hw, hd⟩ := discharge_inStep h
      cases o with
      | none =>
        obtain ⟨rfl, rfl⟩ := Prod.mk.inj (Except.ok.inj he)
        exact ⟨hsame, .inl ⟨rfl, ks, ws, hw, hd⟩⟩
      | some f =>
        obtain ⟨s₁, ha, he⟩ := bind_ok he
        obtain ⟨rfl, rfl⟩ := Prod.mk.inj (Except.ok.inj he)
        subst hnow
        obtain ⟨-, rfl⟩ := Vec.minus_ok_iff.1 hmove
        obtain ⟨-, rfl⟩ := Vec.minus_ok_iff.1 hit
        obtain ⟨hsame', hl'⟩ := adopt_learnt hd (hsame.config ▸ hfirst.2) hw hcont
          (W.apply hd.good hres) rfl hins ha
        exact ⟨hsame.trans hsame', .inr ⟨rfl, hfirst.1, hl'⟩⟩

/-! ## The secondary blocks -/

/-- If a column was added, the list of a secondary block gets the move since the last call. -/
theorem appendMove_eq {added : Bool} {id : DataId} {values last : Vec α} {history : History α}
    (hl : added = true → s.lastSecondary.find? id = some last)
    (h : s.appendMove added id values = .ok history) :
    history = { s.history with secondary := history.secondary } ∧
      ∀ j, history.secondaryColumns j = if added = true ∧ j = id then
        s.history.secondaryColumns id ++ [values.sub last]
      else s.history.secondaryColumns j := by
  unfold appendMove at h
  split at h
  next hadd =>
    obtain ⟨move, hm, h⟩ := bind_ok h
    obtain rfl := Except.ok.inj h
    rw [secondaryMove, hl hadd] at hm
    obtain ⟨-, rfl⟩ := Vec.minus_ok_iff.1 hm
    refine ⟨rfl, fun j => ?_⟩
    rw [History.secondaryColumns_appendSecondary]
    exact if_congr (iff_and_self.2 fun _ => hadd) rfl rfl
  next hadd =>
    obtain rfl := Except.ok.inj h
    exact ⟨rfl, fun j => (if_neg fun hj => hadd hj.1).symm⟩

/-- Every secondary block is noted; its list gets the move since the last call if there is a column.
-/
theorem noteSecondary_eq {data : DataMap α} {added : Bool} (last : DataId → Vec α) :
    ∀ {ids : List DataId} {s s' : QuasiNewton α}, ids.Nodup →
      (added = true → ∀ id ∈ ids, s.lastSecondary.find? id = some (last id)) →
      noteSecondary data added s ids = .ok s' →
        ∃ secondary lastSecondary, s' = { s with
            history := { s.history with secondary }
            lastSecondary } ∧
          (∀ id, s'.lastSecondary.find? id =
            if id ∈ ids then some (data.valuesOf id) else s.lastSecondary.find? id) ∧
          ∀ id, s'.history.secondaryColumns id =
            if added = true ∧ id ∈ ids then
              s.history.secondaryColumns id ++ [(data.valuesOf id).sub (last id)]
            else s.history.secondaryColumns id := by
  intro ids
  induction ids with
  | nil =>
    intro s s' _ _ h
    obtain rfl := Except.ok.inj h
    refine ⟨s.history.secondary, s.lastSecondary, rfl, fun id => ?_, fun id => ?_⟩
    · rw [if_neg List.not_mem_nil]
    · rw [if_neg fun h => List.not_mem_nil h.2]
  | cons id ids ih =>
    intro s s' hnodup hl h
    obtain ⟨hid, hids⟩ := List.nodup_cons.1 hnodup
    obtain ⟨history, hh, h⟩ := bind_ok h
    obtain ⟨hsec, hcols⟩ := appendMove_eq (fun hadd => hl hadd id List.mem_cons_self) hh
    -- the blocks that are still to come are other ones, so what was noted of them stays
    obtain ⟨secondary, lastSecondary, rfl, hlast', hcols'⟩ := ih hids (fun hadd j hj => by
      rw [OrderedMap.find?_insert, if_neg fun hji : j = id => hid (hji ▸ hj)]
      exact hl hadd j (List.mem_cons_of_mem _ hj)) h
    refine ⟨secondary, lastSecondary, by rw [hsec], fun j => (hlast' j).trans ?_,
      fun j => (hcols' j).trans ?_⟩
    · rw [OrderedMap.find?_insert]
      by_cases hj : j ∈ ids
      · rw [if_pos hj, if_pos (List.mem_cons_of_mem _ hj)]
      · rw [if_neg hj]
        by_cases hji : j = id
        · rw [if_pos hji, hji, if_pos List.mem_cons_self]
        · rw [if_neg hji, if_neg fun h => (List.mem_cons.1 h).elim hji hj]
    · show (if added = true ∧ j ∈ ids then
          history.secondaryColumns j ++ [(data.valuesOf j).sub (last j)]
        else history.secondaryColumns j) = _
      rw [hcols j]
      by_cases hadd : added = true
      · by_cases hj : j ∈ ids
        · have hji : j ≠ id := fun h => hid (h ▸ hj)
          rw [if_pos ⟨hadd, hj⟩, if_neg fun h => hji h.2, if_pos ⟨hadd, List.mem_cons_of_mem _ hj⟩]
        · rw [if_neg fun h => hj h.2]
          by_cases hji : j = id
          · rw [if_pos ⟨hadd, hji⟩, hji, if_pos ⟨hadd, List.mem_cons_self⟩]
          · rw [if_neg fun h => hji h.2, if_neg fun h => (List.mem_cons.1 h.2).elim hji hj]
      · rw [if_neg fun h => hadd h.1, if_neg fun h => hadd h.1, if_neg fun h => hadd h.1]

/-! ## The whole of it -/

/-- The secondary lists catch up with the primary ones. -/
theorem noteSecondary_learnt {data : DataMap α} (h : Learnt W χ (n + 1) s (ks ++ [n]) ks ws)
    (hdata : χ.data n = data) (hnodup : s.secondaryIds.Nodup)
    (hl : ∀ id ∈ s.secondaryIds, s.lastSecondary.find? id = some (χ.values id (n - 1)))
    (hn : noteSecondary data true s s.secondaryIds = .ok s') :
    SameSetup { s with lastSecondary := s'.lastSecondary } s' ∧
      (∀ id ∈ s.secondaryIds, s'.lastSecondary.find? id = some (χ.values id n)) ∧
      Learnt W χ (n + 1) s' (ks ++ [n]) (ks ++ [n]) ws := by
  obtain ⟨secondary, lastSecondary, rfl, hlast', hcols⟩ :=
    noteSecondary_eq _ hnodup (fun _ => hl) hn
  refine ⟨rfl, fun id hid => ?_, h.good,
    ⟨⟨h.records.residuals, h.records.iterates, fun id hid => ?_⟩, h.records.windows⟩, h.shaped,
    h.columns, h.ascending⟩
  · rw [hlast' id, if_pos hid, ← hdata]
    rfl
  · rw [hcols id, if_pos ⟨rfl, hid⟩, h.records.secondary id hid, List.map_append, ← hdata]
    rfl

/-- Without a new column the secondary blocks are only noted. -/
theorem noteSecondary_inStep {data : DataMap α} (h : InStep W χ n current s)
    (hnodup : s.secondaryIds.Nodup)
    (hn : noteSecondary data false s s.secondaryIds = .ok s') :
    SameSetup { s with lastSecondary := s'.lastSecondary } s' ∧
      (∀ id ∈ s.secondaryIds, s'.lastSecondary.find? id = some (data.valuesOf id)) ∧
      InStep W χ n current s' := by
  obtain ⟨secondary, lastSecondary, rfl, hlast', hcols⟩ :=
    noteSecondary_eq (fun _ => []) hnodup (fun h => absurd h Bool.false_ne_true) hn
  obtain ⟨ks, ws, hw, h⟩ := h
  refine ⟨rfl, fun id hid => ?_, ks, ws, hw, h.good,
    ⟨⟨h.records.residuals, h.records.iterates, fun id hid => ?_⟩, h.records.windows⟩, h.shaped,
    h.columns, h.ascending⟩
  · rw [hlast' id, if_pos hid]
  · rw [hcols id, if_neg fun h => Bool.false_ne_true h.1, h.records.secondary id hid]

theorem applyFilter_inStep {added : Bool} (h : InStep W χ n current s)
    (ha : s.applyFilter added = .ok s') : SameSetup s s' ∧ InStep W χ n current s' := by
  unfold applyFilter at ha
  split at ha
  next =>
    obtain ⟨ks, ws, hw, h⟩ := h
    obtain ⟨⟨f, removed⟩, hf, ha⟩ := bind_ok ha
    obtain ⟨hshaped, -, hcount⟩ := Filter.apply_shaped h.shaped hf
    obtain ⟨hsame, hs⟩ := dropAll_inStep ha h.good h.records hw h.ascending hshaped
      (hcount.trans h.columns)
    exact ⟨hsame, hs⟩
  next =>
    obtain rfl := Except.ok.inj ha
    exact ⟨rfl, h⟩

/-- A call that is the `n`-th visit learns at most from the visit before, and leaves the columns in
step. -/
theorem learn_inStep {data : DataMap α} {now : Snapshot α} (h : InStep W χ n (χ.windowOf n) s)
    (hnow : now = ⟨χ.residual n, χ.iterate n⟩) (hdata : χ.data n = data)
    (hnodup : s.secondaryIds.Nodup)
    (hlast : s.firstIteration = false → χ.Continues n ∧
      s.last = some ⟨χ.residual (n - 1), χ.iterate (n - 1)⟩ ∧
      ∀ id ∈ s.secondaryIds, s.lastSecondary.find? id = some (χ.values id (n - 1)))
    (hl : s.learn data now = .ok s') :
    SameSetup { s with lastSecondary := s'.lastSecondary } s' ∧
      (∀ id ∈ s.secondaryIds, s'.lastSecondary.find? id = some (χ.values id n)) ∧
      InStep W χ (n + 1) (χ.windowOf n) s' := by
  obtain ⟨p, hp, hl⟩ := bind_ok hl
  obtain ⟨s₁, h₁, hl⟩ := bind_ok hl
  obtain ⟨⟨s₂, added⟩, h₂, hl⟩ := bind_ok hl
  obtain ⟨s₃, h₃, hl⟩ := bind_ok hl
  have h₀ : InStep W χ n (χ.windowOf n) { s with preconditioner := p } := by
    obtain ⟨ks, ws, hw, h⟩ := h
    have hgood := W.good_accumulate h.good hp
    obtain ⟨sums, rfl⟩ := Preconditioner.accumulate_eq hp
    exact ⟨ks, ws, hw, hgood, h.records, h.shaped, h.columns, h.ascending⟩
  obtain ⟨hsame₁, hs₁⟩ := reweigh_inStep h₀ h₁
  have hsec₁ : s₁.secondaryIds = s.secondaryIds := hsame₁.secondaryIds
  obtain ⟨hsame₂, hs₂⟩ := extend_inStep hs₁ hnow (fun hf => by
    obtain ⟨hc, hl, -⟩ := hlast (hsame₁.firstIteration.symm.trans hf)
    exact ⟨hc, hsame₁.last.trans hl⟩) h₂
  have hsec₂ : s₂.secondaryIds = s.secondaryIds := hsame₂.secondaryIds.trans hsec₁
  have hlastSec : s₂.lastSecondary = s.lastSecondary :=
    hsame₂.lastSecondary.trans hsame₁.lastSecondary
  have hnodup₂ : s₂.secondaryIds.Nodup := hsec₂ ▸ hnodup
  -- only here do the secondary lists catch up, after the oldest column may have gone
  obtain ⟨hsame₃, hnoted, hs₃⟩ : SameSetup { s₂ with lastSecondary := s₃.lastSecondary } s₃ ∧
      (∀ id ∈ s₂.secondaryIds, s₃.lastSecondary.find? id = some (χ.values id n)) ∧
      InStep W χ (n + 1) (χ.windowOf n) s₃ := by
    rcases hs₂ with ⟨rfl, hs₂⟩ | ⟨rfl, hf, ks, ws, hw, hs₂⟩
    · obtain ⟨hsame, hnoted, ks, ws, hw, hs₃⟩ := noteSecondary_inStep hs₂ hnodup₂ h₃
      subst hdata
      exact ⟨hsame, hnoted, ks, ws, hw, hs₃.mono (Nat.le_succ n)⟩
    · obtain ⟨-, -, hprev⟩ := hlast (hsame₁.firstIteration.symm.trans hf)
      obtain ⟨hsame, hnoted, hs₃⟩ := noteSecondary_learnt hs₂ hdata hnodup₂ (fun id hid => by
        rw [hlastSec]
        exact hprev id (hsec₂ ▸ hid)) h₃
      exact ⟨hsame, hnoted, ks ++ [n], ws, hw, hs₃⟩
  obtain ⟨hsame₄, hs₄⟩ := applyFilter_inStep hs₃ hl
  have hsame : SameSetup s s₂ := SameSetup.trans (s := s) hsame₁ hsame₂
  have hmid : SameSetup { s with lastSecondary := s'.lastSecondary }
      { s₂ with lastSecondary := s₃.lastSecondary } := by
    rw [hsame₄.lastSecondary]
    exact hsame.withLastSecondary _
  refine ⟨(hmid.trans hsame₃).trans hsame₄, fun id hid => ?_, hs₄⟩
  rw [hsame₄.lastSecondary]
  exact hnoted id (hsec₂ ▸ hid)

/-- Where no weights are due, no column has to go and the filter has no objection, a call takes its
column in. -/
theorem learn_appends {d : DataMap α} {now last : Snapshot α} {moved iterate column : Vec α}
    {f : Factorization α}
    (haccumulate : s.preconditioner.accumulate now.residual = .ok s.preconditioner)
    (hlater : s.firstIteration = false) (hlast : s.last = some last)
    (hpending : s.pendingClear = false) (hsecondary : s.secondaryIds = [])
    (hroom : s.columns < s.config.maxIterationsUsed)
    (hmoved : now.residual.minus last.residual = .ok moved) (hlong : ¬ moved.norm < vanishing)
    (hiterate : now.iterate.minus last.iterate = .ok iterate)
    (hcolumn : s.preconditioner.apply moved = .ok column)
    (hinsert : s.factorization.insert column = .ok (some f))
    (hfilter : s.filter.apply f = .ok (f, [])) :
    s.learn d now =
      .ok { s with factorization := f, history := s.history.append column iterate } := by
  have hreweigh : s.reweigh now.iterate now.residual = .ok s := by
    rw [reweigh, hlater]
    rfl
  obtain ⟨grown, hgrown⟩ : ∃ grown : QuasiNewton α, grown =
    { s with factorization := f, history := s.history.append column iterate } := ⟨_, rfl⟩
  have hadopt : s.adopt f column iterate = .ok grown := by
    rw [hgrown]
    refine if_neg (Nat.not_lt.2 ?_)
    show (s.history.residuals ++ [column]).length ≤ s.config.maxIterationsUsed
    rw [List.length_append]
    exact hroom
  have hdischarge : s.discharge = s := by
    rw [discharge, hpending]
    rfl
  have hextend : s.extend now = .ok (grown, true) := by
    rw [extend, hlater, if_neg (by simp; omega), hlast]
    dsimp only
    rw [hmoved, ok_bind, if_neg hlong, hiterate, ok_bind, hdischarge, hcolumn, ok_bind, hinsert,
      ok_bind]
    dsimp only
    rw [hadopt, ok_bind]
  rw [← hgrown, learn, haccumulate, ok_bind]
  show s.reweigh now.iterate now.residual >>= _ = _
  rw [hreweigh, ok_bind, hextend, ok_bind]
  dsimp only
  rw [show grown.secondaryIds = [] from hgrown ▸ hsecondary, noteSecondary, ok_bind, applyFilter,
    if_pos rfl, show grown.filter.apply grown.factorization = .ok (f, []) from hgrown ▸ hfilter,
    hgrown]
  rfl

end QuasiNewton

end Cosimulation.Acceleration

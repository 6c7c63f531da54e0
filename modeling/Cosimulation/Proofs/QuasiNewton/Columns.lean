import Mathlib.Data.List.Forall2
import Mathlib.Data.List.InsertIdx
import Cosimulation.Proofs.Factorization.Shape
import Cosimulation.Proofs.QuasiNewton.Session

/-!
# What the columns of a history stand for

`History.Records h R χ ids ks ks' ws` says that the columns of a history stand for visits of a
chronicle: the primary lists for the visits `ks`, the lists of the secondary blocks for `ks'`, with
the same moves at the same positions. The two differ only while a column has been appended to the
primary lists and not yet to the others. What is known of a column of residual moves is left open
(`R`).

Every way to remove columns removes the same positions everywhere, so it removes them from the lists
of visits (`Records.drop`, `Records.dropAll`), and the windows still group them.
-/

namespace Cosimulation.Acceleration

variable {α : Type}

theorem forall₂_eraseIdx {β γ : Type} {R : β → γ → Prop} {xs : List β} {ys : List γ}
    (h : List.Forall₂ R xs ys) (i : Nat) : List.Forall₂ R (xs.eraseIdx i) (ys.eraseIdx i) := by
  rw [List.eraseIdx_eq_take_drop_succ, List.eraseIdx_eq_take_drop_succ]
  exact List.rel_append (List.forall₂_take i h) (List.forall₂_drop (i + 1) h)

namespace History

variable {h h' : History α}

/-! ## One list at a time -/

@[simp]
theorem secondaryColumns_appendSecondary (h : History α) (id j : DataId) (column : Vec α) :
    (h.appendSecondary id column).secondaryColumns j =
      if j = id then h.secondaryColumns id ++ [column] else h.secondaryColumns j := by
  rw [secondaryColumns, appendSecondary, OrderedMap.find?_insert]
  split <;> rfl

theorem removeColumn_eq {i : Nat} (hr : h.removeColumn i = .ok h') :
    i < h.residuals.length ∧ h' = { h with
      residuals := h.residuals.eraseIdx i
      iterates := h.iterates.eraseIdx i
      secondary := h.secondary.mapValues fun columns => columns.eraseIdx i } := by
  unfold removeColumn at hr
  split at hr
  next hi => exact ⟨hi.1, (Except.ok.inj hr).symm⟩
  next => cases hr

theorem secondaryColumns_removeColumn {i : Nat} (hr : h.removeColumn i = .ok h') (id : DataId) :
    h'.secondaryColumns id = (h.secondaryColumns id).eraseIdx i := by
  obtain ⟨-, rfl⟩ := removeColumn_eq hr
  rw [secondaryColumns, secondaryColumns, OrderedMap.find?_mapValues]
  cases h.secondary.find? id with
  | none => rfl
  | some columns => rfl

/-! ## Removing columns that are there -/

/-- Removing a position takes at most one entry. -/
theorem length_le_eraseAll {β : Type} (positions : List Nat) : ∀ xs : List β,
    xs.length ≤ (eraseAll xs positions).length + positions.length := by
  induction positions with
  | nil => intro xs; exact Nat.le_refl _
  | cons i is ih =>
    intro xs
    have h : xs.length ≤ (xs.eraseIdx i).length + 1 := by
      rw [List.length_eraseIdx]
      split <;> omega
    have hi := ih (xs.eraseIdx i)
    show xs.length ≤ (eraseAll (xs.eraseIdx i) is).length + (is.length + 1)
    omega

theorem removeColumn_total {i : Nat} (hl : h.iterates.length = h.residuals.length)
    (hi : i < h.residuals.length) :
    ∃ h', h.removeColumn i = .ok h' ∧ h'.residuals = h.residuals.eraseIdx i ∧
      h'.iterates = h.iterates.eraseIdx i ∧
      (∀ id, h'.secondaryColumns id = (h.secondaryColumns id).eraseIdx i) ∧
      h'.windows = h.windows := by
  have hr : h.removeColumn i = .ok { h with
      residuals := h.residuals.eraseIdx i
      iterates := h.iterates.eraseIdx i
      secondary := h.secondary.mapValues fun columns => columns.eraseIdx i } :=
    if_pos ⟨hi, hl.symm ▸ hi⟩
  exact ⟨_, hr, rfl, rfl, secondaryColumns_removeColumn hr, rfl⟩

theorem drop_total {i : Nat} (hl : h.iterates.length = h.residuals.length)
    (hi : i < h.residuals.length) :
    ∃ h', h.drop i = .ok h' ∧ h'.residuals = h.residuals.eraseIdx i ∧
      h'.iterates = h.iterates.eraseIdx i ∧
      ∀ id, h'.secondaryColumns id = (h.secondaryColumns id).eraseIdx i := by
  obtain ⟨g, hg, hres, hit, hsec, -⟩ := removeColumn_total hl hi
  refine ⟨{ g with windows := g.windows.erase i }, ?_, hres, hit, hsec⟩
  rw [drop, hg]
  rfl

/-- Dropping succeeds when as many columns go as positions are given. -/
theorem dropAll_total : ∀ (positions : List Nat) {h : History α},
    h.iterates.length = h.residuals.length →
    (eraseAll h.residuals positions).length + positions.length = h.residuals.length →
      ∃ h', h.dropAll positions = .ok h' ∧ h'.iterates.length = h'.residuals.length ∧
        h'.residuals = eraseAll h.residuals positions ∧
        h'.iterates = eraseAll h.iterates positions ∧
        ∀ id, h'.secondaryColumns id = eraseAll (h.secondaryColumns id) positions := by
  intro positions
  induction positions with
  | nil => intro h hl _; exact ⟨h, rfl, hl, rfl, rfl, fun _ => rfl⟩
  | cons i is ih =>
    intro h hl hc
    have hle := length_le_eraseAll is (h.residuals.eraseIdx i)
    have hc' : (eraseAll (h.residuals.eraseIdx i) is).length + (is.length + 1) =
      h.residuals.length := hc
    -- a position that is not there would take no column
    have hi : i < h.residuals.length := by
      by_contra hge
      rw [List.eraseIdx_of_length_le (Nat.not_lt.1 hge)] at hle hc'
      omega
    obtain ⟨g, hg, hres, hit, hsec⟩ := drop_total hl hi
    have hlg : g.iterates.length = g.residuals.length := by
      rw [hit, hres, List.length_eraseIdx, List.length_eraseIdx, hl]
    have hlen : g.residuals.length + 1 = h.residuals.length := by
      rw [hres, List.length_eraseIdx, if_pos hi]
      omega
    obtain ⟨h', hh', hl', hres', hit', hsec'⟩ := ih hlg (by rw [hres]; rw [hres] at hlen; omega)
    refine ⟨h', ?_, hl', ?_, ?_, fun id => ?_⟩
    · rw [dropAll, hg]
      exact hh'
    · rw [hres', hres]
      rfl
    · rw [hit', hit]
      rfl
    · rw [hsec', hsec]
      rfl

/-! ## All lists -/

variable [Scalar α]

/-- The columns stand for visits: the primary ones for `ks`, those of the secondary blocks `ids` for
`ks'`. -/
structure Lists (h : History α) (R : Nat → Vec α → Prop) (χ : Chronicle α) (ids : List DataId)
    (ks ks' : List Nat) : Prop where
  residuals : List.Forall₂ R ks h.residuals
  iterates : h.iterates = ks.map χ.iterateMove
  secondary : ∀ id ∈ ids, h.secondaryColumns id = ks'.map (χ.secondaryMove id)

/-- The windows of the history group the columns by the windows of the visits. -/
structure Records (h : History α) (R : Nat → Vec α → Prop) (χ : Chronicle α) (ids : List DataId)
    (ks ks' ws : List Nat) : Prop extends Lists h R χ ids ks ks' where
  windows : h.windows.Groups ws (ks.map χ.windowOf)

variable {R : Nat → Vec α → Prop} {χ : Chronicle α} {ids : List DataId} {ks ks' ws : List Nat}

theorem empty_records (R : Nat → Vec α → Prop) (χ : Chronicle α) (ids : List DataId)
    (current : Nat) : (empty : History α).Records R χ ids [] [] [current] :=
  ⟨⟨.nil, rfl, fun _ _ => rfl⟩, .fresh current⟩

theorem Lists.removeColumn {i : Nat} (hh : h.Lists R χ ids ks ks')
    (hr : h.removeColumn i = .ok h') :
    i < ks.length ∧ h'.windows = h.windows ∧
      h'.Lists R χ ids (ks.eraseIdx i) (ks'.eraseIdx i) := by
  have hs := secondaryColumns_removeColumn hr
  obtain ⟨hi, rfl⟩ := removeColumn_eq hr
  refine ⟨hh.residuals.length_eq ▸ hi, rfl, forall₂_eraseIdx hh.residuals i, ?_, fun id hid => ?_⟩
  · rw [hh.iterates, List.eraseIdx_map]
  · rw [hs id, hh.secondary id hid, List.eraseIdx_map]

theorem Records.drop {i : Nat} (hh : h.Records R χ ids ks ks' ws) (hd : h.drop i = .ok h') :
    i < ks.length ∧ ∃ ws', ws'.getLast? = ws.getLast? ∧
      h'.Records R χ ids (ks.eraseIdx i) (ks'.eraseIdx i) ws' := by
  obtain ⟨g, hg, hd⟩ := bind_ok hd
  obtain rfl := Except.ok.inj hd
  obtain ⟨hi, hw, hl⟩ := hh.toLists.removeColumn hg
  obtain ⟨ws', hlast, hgroups⟩ := hh.windows.erase (i := i) (by rwa [List.length_map])
  refine ⟨hi, ws', hlast, ⟨hl.residuals, hl.iterates, hl.secondary⟩, ?_⟩
  rw [List.eraseIdx_map] at hgroups
  rw [hw]
  exact hgroups

theorem Records.dropAll (positions : List Nat) : ∀ {h : History α} {ks ks' ws : List Nat},
    h.Records R χ ids ks ks' ws → h.dropAll positions = .ok h' →
      (eraseAll ks positions).length + positions.length = ks.length ∧
      ∃ ws', ws'.getLast? = ws.getLast? ∧
        h'.Records R χ ids (eraseAll ks positions) (eraseAll ks' positions) ws' := by
  induction positions with
  | nil =>
    intro h ks ks' ws hh hd
    obtain rfl := Except.ok.inj hd
    exact ⟨rfl, ws, rfl, hh⟩
  | cons i is ih =>
    intro h ks ks' ws hh hd
    obtain ⟨g, hg, hd⟩ := bind_ok hd
    obtain ⟨hi, ws₁, hlast₁, hh₁⟩ := hh.drop hg
    obtain ⟨hl, ws', hlast, hh'⟩ := ih hh₁ hd
    refine ⟨?_, ws', hlast.trans hlast₁, hh'⟩
    rw [List.length_eraseIdx, if_pos hi] at hl
    show (eraseAll (ks.eraseIdx i) is).length + (is.length + 1) = ks.length
    omega

theorem Records.append {j : Nat} {residual iterate : Vec α} (hh : h.Records R χ ids ks ks' ws)
    (hr : R j residual) (hi : iterate = χ.iterateMove j) (hw : ws.getLast? = some (χ.windowOf j)) :
    (h.append residual iterate).Records R χ ids (ks ++ [j]) ks' ws := by
  refine ⟨⟨List.rel_append hh.residuals (.cons hr .nil), ?_, hh.secondary⟩, ?_⟩
  · rw [List.map_append, List.map_singleton, ← hi, ← hh.iterates]
    rfl
  · rw [List.map_append]
    exact hh.windows.push hw

/-- Other visits do not matter. -/
theorem Records.congr {χ' : Chronicle α} {R' : Nat → Vec α → Prop}
    (hh : h.Records R χ ids ks ks' ws) (hR : ∀ i ∈ ks, ∀ x, R i x → R' i x)
    (hi : ∀ i ∈ ks, χ'.iterateMove i = χ.iterateMove i)
    (hs : ∀ id ∈ ids, ∀ i ∈ ks', χ'.secondaryMove id i = χ.secondaryMove id i)
    (hw : ∀ i ∈ ks, χ'.windowOf i = χ.windowOf i) : h.Records R' χ' ids ks ks' ws := by
  refine ⟨⟨?_, ?_, fun id hid => ?_⟩, ?_⟩
  · exact ((List.forall₂_and_left _ _).2 ⟨fun i hi => hi, hh.residuals⟩).imp
      fun i x hx => hR i hx.1 x hx.2
  · rw [hh.iterates]
    exact List.map_congr_left fun i hik => (hi i hik).symm
  · rw [hh.secondary id hid]
    exact List.map_congr_left fun i hik => (hs id hid i hik).symm
  · rw [List.map_congr_left hw]
    exact hh.windows

end History

end Cosimulation.Acceleration

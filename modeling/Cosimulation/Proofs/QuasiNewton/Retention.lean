import Mathlib.Data.List.Dedup
import Cosimulation.Proofs.QuasiNewton.Frame
import Cosimulation.Proofs.QuasiNewton.Runs
import Cosimulation.Proofs.QuasiNewton.Sizes

/-!
# Which columns outlive their window

How long columns are kept is decided in several places: finishing a window, retaining the newest
ones, and dropping what was only kept until the next window has a column of its own.
`Session.Retained` collects what comes of it, in terms of the windows of the visits that the columns
stand for.

The sizes of the windows carry the proof. While windows are reused, each finished window in the list
holds a column and there are no more of them than the settings say (`Windows.Within`); so those that
go at the end of a window are the oldest that hold one (`Groups.newer_lt`, `Groups.le_newer`). If
none is reused, there is but one window once the history was discharged. Columns are added and
removed in many places, but in a call all that happens to the sizes is that one grows, one shrinks,
or they start afresh; so what is `Stable` under these three holds after each call.
-/

namespace Cosimulation.Acceleration

/-! ## Labels of windows -/

namespace Windows

/-- How many windows newer than `x` hold a column, given the label of each column. -/
def newer (labels : List Nat) (x : Nat) : Nat := (labels.dedup.filter (x < ·)).length

theorem mem_of_mem_spread : ∀ {sizes ws : List Nat} {x : Nat},
    x ∈ (List.zipWith List.replicate sizes ws).flatten → x ∈ ws := by
  intro sizes
  induction sizes with
  | nil => exact fun h => absurd h List.not_mem_nil
  | cons n ns ih =>
    intro ws x h
    cases ws with
    | nil => exact absurd h List.not_mem_nil
    | cons y ws =>
      rw [List.zipWith_cons_cons, List.flatten_cons, List.mem_append] at h
      rcases h with h | h
      · rw [List.eq_of_mem_replicate h]
        exact List.mem_cons_self
      · exact List.mem_cons_of_mem _ (ih h)

theorem mem_spread : ∀ {sizes ws : List Nat} {x : Nat}, (∀ n ∈ sizes, 0 < n) →
    ws.length = sizes.length → x ∈ ws →
      x ∈ (List.zipWith List.replicate sizes ws).flatten := by
  intro sizes
  induction sizes with
  | nil =>
    intro ws x _ hl hx
    rw [List.length_eq_zero_iff.1 hl] at hx
    exact absurd hx List.not_mem_nil
  | cons n ns ih =>
    intro ws x hpos hl hx
    obtain ⟨hn, hns⟩ := List.forall_mem_cons.1 hpos
    match ws, hl, hx with
    | y :: ws, hl, hx =>
      rw [List.zipWith_cons_cons, List.flatten_cons, List.mem_append]
      rcases List.mem_cons.1 hx with rfl | hx
      · exact .inl (List.mem_replicate.2 ⟨hn.ne', rfl⟩)
      · exact .inr (ih hns (Nat.succ.inj hl) hx)

namespace Groups

variable {w : Windows} {ws labels : List Nat} {T j x : Nat}

theorem mem_of_label (h : w.Groups ws labels) (hx : x ∈ labels) : x ∈ ws :=
  mem_of_mem_spread (h.spread.symm ▸ hx)

/-- The columns of the `j` oldest windows, and the others. -/
theorem split_at (h : w.Groups ws labels) (j : Nat) :
    (∀ x ∈ labels.take (w.sizes.take j).sum, x ∈ ws.take j) ∧
      ∀ x ∈ labels.drop (w.sizes.take j).sum, x ∈ ws.drop j := by
  have hl : (ws.take j).length = (w.sizes.take j).length := by
    rw [List.length_take, List.length_take, h.length]
  have hsplit : labels =
      (List.zipWith List.replicate (w.sizes.take j) (ws.take j)).flatten ++
        (List.zipWith List.replicate (w.sizes.drop j) (ws.drop j)).flatten := by
    rw [← List.flatten_append, ← List.zipWith_append hl.symm, List.take_append_drop,
      List.take_append_drop]
    exact h.spread.symm
  have hlen : (List.zipWith List.replicate (w.sizes.take j) (ws.take j)).flatten.length =
      (w.sizes.take j).sum := length_flatten hl
  rw [hsplit, List.take_left' hlen, List.drop_left' hlen]
  exact ⟨fun x => mem_of_mem_spread, fun x => mem_of_mem_spread⟩

/-- If all windows hold a column, the newer ones are counted by their labels. -/
theorem newer_eq (h : w.Groups ws labels) (hpos : ∀ n ∈ w.sizes, 0 < n) (x : Nat) :
    newer labels x = (ws.filter (x < ·)).length := by
  have hperm : labels.dedup.Perm ws := by
    refine (List.perm_ext_iff_of_nodup (List.nodup_dedup labels)
      (h.ascending.imp Nat.ne_of_lt)).2 fun y => ?_
    rw [List.mem_dedup]
    refine ⟨h.mem_of_label, fun hy => ?_⟩
    rw [← h.spread]
    exact mem_spread hpos h.length hy
  exact (hperm.filter _).length_eq

/-- Fewer than `T` windows are newer than one of the `T` newest. -/
theorem newer_lt (h : w.Groups ws labels) (hpos : ∀ n ∈ w.sizes, 0 < n)
    (hj : w.sizes.length - T ≤ j) (hx : x ∈ labels.drop (w.sizes.take j).sum) :
    newer labels x < T := by
  have hxj := (h.split_at j).2 x hx
  rw [h.newer_eq hpos]
  have hold : ∀ y ∈ ws.take j, ¬ x < y := fun y hy => by
    have hasc := h.ascending
    rw [← List.take_append_drop j ws] at hasc
    exact Nat.not_lt.2 (Nat.le_of_lt ((List.pairwise_append.1 hasc).2.2 y hy x hxj))
  have hcount : (ws.filter (x < ·)).length = ((ws.drop j).filter (x < ·)).length := by
    conv_lhs => rw [← List.take_append_drop j ws, List.filter_append]
    rw [List.filter_eq_nil_iff.2 fun y hy => by simpa using hold y hy, List.nil_append]
  -- the window itself is not newer
  have hless : ((ws.drop j).filter (x < ·)).length < (ws.drop j).length :=
    List.length_filter_lt_length_iff_exists.2 ⟨x, hxj, by simp⟩
  have hl := h.length
  rw [List.length_drop] at hless
  omega

/-- Of the windows, which end with the current one, no more than `T` are finished. -/
theorem finished_le (h : w.Groups ws labels) {current : Nat} (hw : ws.getLast? = some current)
    (hl : w.sizes.length ≤ T + 1) : (labels.dedup.filter (· ≠ current)).length ≤ T := by
  have hsub : labels.dedup.filter (· ≠ current) ⊆ ws.filter (· ≠ current) := fun x hx => by
    rw [List.mem_filter, List.mem_dedup] at hx
    exact List.mem_filter.2 ⟨h.mem_of_label hx.1, hx.2⟩
  have hle := (List.subperm_of_subset ((List.nodup_dedup labels).filter _) hsub).length_le
  have hlt : (ws.filter (· ≠ current)).length < ws.length :=
    List.length_filter_lt_length_iff_exists.2 ⟨current, List.mem_of_getLast? hw, by simp⟩
  have hlen := h.length
  omega

/-- All `T` newest windows are newer than one that is not among them. -/
theorem le_newer (h : w.Groups ws labels) (hpos : ∀ n ∈ w.sizes, 0 < n)
    (hj : j = w.sizes.length - T) (hx : x ∈ labels.take (w.sizes.take j).sum) :
    T ≤ newer labels x := by
  have hxj := (h.split_at j).1 x hx
  rw [h.newer_eq hpos]
  have hnew : ∀ y ∈ ws.drop j, x < y := fun y hy => by
    have hasc := h.ascending
    rw [← List.take_append_drop j ws] at hasc
    exact (List.pairwise_append.1 hasc).2.2 x hxj y hy
  have hcount : (ws.drop j).length ≤ (ws.filter (x < ·)).length := by
    have hsub := (List.drop_sublist j ws).filter (x < ·)
    rw [List.filter_eq_self.2 fun y hy => by simpa using hnew y hy] at hsub
    exact hsub.length_le
  have hl := h.length
  have hjpos : 0 < j := by
    refine Nat.pos_of_ne_zero fun h0 => ?_
    rw [h0, List.take_zero] at hxj
    exact absurd hxj List.not_mem_nil
  rw [List.length_drop] at hcount
  omega

end Groups

end Windows

variable {α : Type} [Scalar α]

namespace QuasiNewton

variable {s s' s'' : QuasiNewton α}

/-! ## Removing the oldest columns -/

/-- The `m` oldest columns are gone from every list and from the factorization, and nothing else. -/
structure Trimmed (m : Nat) (s s' : QuasiNewton α) : Prop where
  residuals : s'.history.residuals = s.history.residuals.drop m
  iterates : s'.history.iterates = s.history.iterates.drop m
  secondary : ∀ id, s'.history.secondaryColumns id = (s.history.secondaryColumns id).drop m
  factorization : (List.replicate m 0).foldlM Factorization.delete s.factorization =
    .ok s'.factorization

theorem Trimmed.trans {m n : Nat} (h : Trimmed m s s') (h' : Trimmed n s' s'') :
    Trimmed (m + n) s s'' := by
  refine ⟨?_, ?_, fun id => ?_, ?_⟩
  · rw [h'.residuals, h.residuals, List.drop_drop]
  · rw [h'.iterates, h.iterates, List.drop_drop]
  · rw [h'.secondary, h.secondary, List.drop_drop]
  · rw [List.replicate_add, List.foldlM_append, h.factorization]
    exact h'.factorization

theorem removeOldest_trimmed : ∀ {m : Nat} {s s' : QuasiNewton α}, s.removeOldest m = .ok s' →
    Trimmed m s s' ∧ s'.history.windows = s.history.windows := by
  intro m
  induction m with
  | zero =>
    intro s s' h
    obtain rfl := Except.ok.inj h
    exact ⟨⟨rfl, rfl, fun _ => rfl, rfl⟩, rfl⟩
  | succ m ih =>
    intro s s' h
    obtain ⟨f, hf, h⟩ := bind_ok h
    obtain ⟨g, hg, h⟩ := bind_ok h
    obtain ⟨hrest, hw⟩ := ih h
    have hsec := History.secondaryColumns_removeColumn hg
    obtain ⟨-, rfl⟩ := History.removeColumn_eq hg
    have htail {β : Type} (xs : List β) : xs.eraseIdx 0 = xs.drop 1 := by
      rw [List.eraseIdx_zero, List.drop_one]
    have hfirst : Trimmed 1 s { s with
        factorization := f
        history := { s.history with
          residuals := s.history.residuals.eraseIdx 0
          iterates := s.history.iterates.eraseIdx 0
          secondary := s.history.secondary.mapValues fun columns => columns.eraseIdx 0 } } := by
      refine ⟨htail _, htail _, fun id => (hsec id).trans (htail _), ?_⟩
      show (s.factorization.delete 0 >>= fun g => .ok g) = .ok f
      rw [hf]
      rfl
    have hboth := hfirst.trans hrest
    rw [Nat.add_comm] at hboth
    exact ⟨hboth, hw⟩

/-- Windows that go take their columns along. -/
theorem removeWindows_trimmed : ∀ {j : Nat} {s s' : QuasiNewton α}, s.removeWindows j = .ok s' →
    Trimmed (s.windows.sizes.take j).sum s s' ∧ s'.windows.sizes = s.windows.sizes.drop j := by
  intro j
  induction j with
  | zero =>
    intro s s' h
    obtain rfl := Except.ok.inj h
    exact ⟨⟨rfl, rfl, fun _ => rfl, rfl⟩, rfl⟩
  | succ j ih =>
    intro s s' h
    rw [removeWindows] at h
    split at h
    next hnone =>
      obtain rfl := Except.ok.inj h
      rw [windows, hnone]
      exact ⟨⟨rfl, rfl, fun _ => rfl, rfl⟩, rfl⟩
    next size sizes hsizes =>
      obtain ⟨s₁, h₁, h⟩ := bind_ok h
      obtain ⟨hold, hw⟩ := removeOldest_trimmed h₁
      obtain ⟨hrest, hleft⟩ := ih h
      have hsizes₁ : s₁.windows.sizes = sizes := congrArg Windows.sizes hw
      rw [hsizes₁] at hrest hleft
      rw [windows, hsizes, List.take_succ_cons, List.sum_cons, List.drop_succ_cons]
      have hfirst : Trimmed size s s₁ :=
        ⟨hold.residuals, hold.iterates, hold.secondary, hold.factorization⟩
      exact ⟨hfirst.trans hrest, hleft⟩

/-! ## What a call does to the windows -/

/-- Something said of the windows, and of whether their columns are kept only until the next one,
that holds on whatever a call does to them. -/
structure Stable (G : Bool → Windows → Prop) : Prop where
  push : ∀ {pending w}, G pending w → G pending w.push
  erase : ∀ {pending w} (i : Nat), G pending w → G pending (w.erase i)
  discharge : ∀ {w}, G true w → G false .fresh

section
variable {G : Bool → Windows → Prop}

omit [Scalar α] in
theorem dropAll_stable (hG : Stable G) {pending : Bool} : ∀ {positions : List Nat}
    {h h' : History α}, G pending h.windows → h.dropAll positions = .ok h' →
      G pending h'.windows := by
  intro positions
  induction positions with
  | nil =>
    intro h h' hg hd
    obtain rfl := Except.ok.inj hd
    exact hg
  | cons i is ih =>
    intro h h' hg hd
    obtain ⟨g, hgd, hd⟩ := bind_ok hd
    obtain ⟨k, hk, hgd⟩ := bind_ok hgd
    obtain rfl := Except.ok.inj hgd
    obtain ⟨-, rfl⟩ := History.removeColumn_eq hk
    exact ih (hG.erase i hg) hd

theorem reweigh_stable (hG : Stable G) {v r : Vec α} (h : G s.pendingClear s.windows)
    (hr : s.reweigh v r = .ok s') : G s'.pendingClear s'.windows := by
  unfold reweigh at hr
  split at hr
  next =>
    obtain rfl := Except.ok.inj hr
    exact h
  next =>
    obtain ⟨unscaled, -, hr⟩ := bind_ok hr
    obtain ⟨p, -, hr⟩ := bind_ok hr
    obtain ⟨residuals, -, hr⟩ := bind_ok hr
    dsimp only at hr
    split at hr
    next =>
      obtain ⟨⟨f, refused⟩, -, hr⟩ := bind_ok hr
      obtain ⟨s₁, hs₁, hr⟩ := bind_ok hr
      obtain rfl := Except.ok.inj hr
      obtain ⟨history, hd, hs₁⟩ := bind_ok hs₁
      obtain rfl := Except.ok.inj hs₁
      refine dropAll_stable hG ?_ hd
      exact h
    next =>
      obtain rfl := Except.ok.inj hr
      exact h

omit [Scalar α] in
theorem discharge_stable (hG : Stable G) (h : G s.pendingClear s.windows) :
    s.discharge.pendingClear = false ∧ G s.discharge.pendingClear s.discharge.windows := by
  unfold discharge
  split
  next hp =>
    rw [hp] at h
    exact ⟨rfl, hG.discharge h⟩
  next hno => exact ⟨Bool.eq_false_iff.2 hno, h⟩

theorem adopt_stable (hG : Stable G) {f : Factorization α} {residual iterate : Vec α}
    (h : G s.pendingClear s.windows) (ha : s.adopt f residual iterate = .ok s') :
    s'.pendingClear = s.pendingClear ∧ G s'.pendingClear s'.windows := by
  unfold adopt at ha
  dsimp only at ha
  split at ha
  next =>
    obtain ⟨g, -, ha⟩ := bind_ok ha
    obtain ⟨history, hd, ha⟩ := bind_ok ha
    obtain rfl := Except.ok.inj ha
    obtain ⟨k, hk, hd⟩ := bind_ok hd
    obtain rfl := Except.ok.inj hd
    obtain ⟨-, rfl⟩ := History.removeColumn_eq hk
    exact ⟨rfl, hG.erase 0 (hG.push h)⟩
  next =>
    obtain rfl := Except.ok.inj ha
    exact ⟨rfl, hG.push h⟩

/-- Once a column was added nothing is pending. -/
theorem extend_stable (hG : Stable G) {now : Snapshot α} {added : Bool}
    (h : G s.pendingClear s.windows) (he : s.extend now = .ok (s', added)) :
    (added = true → s'.pendingClear = false) ∧ G s'.pendingClear s'.windows := by
  obtain ⟨hdone, hd⟩ := discharge_stable hG h
  rcases extend_parts he with ⟨rfl, rfl | rfl⟩ | ⟨-, -, f, residual, iterate, -, ha⟩
  · exact ⟨fun hno => absurd hno Bool.false_ne_true, h⟩
  · exact ⟨fun _ => hdone, hd⟩
  · obtain ⟨hp, hs⟩ := adopt_stable hG hd ha
    exact ⟨fun _ => hp.trans hdone, hs⟩

/-- What happens after a column was added or not. -/
theorem settle_stable (hG : Stable G) {d : DataMap α} {added : Bool} {ids : List DataId}
    (h : G s.pendingClear s.windows) (hn : noteSecondary d added s ids = .ok s')
    (ha : s'.applyFilter added = .ok s'') :
    s''.pendingClear = s.pendingClear ∧ G s''.pendingClear s''.windows := by
  obtain ⟨_, _, rfl⟩ := noteSecondary_only hn
  unfold applyFilter at ha
  split at ha
  next =>
    obtain ⟨⟨f, removed⟩, -, ha⟩ := bind_ok ha
    obtain ⟨history, hd, ha⟩ := bind_ok ha
    obtain rfl := Except.ok.inj ha
    refine ⟨rfl, dropAll_stable hG ?_ hd⟩
    exact h
  next =>
    obtain rfl := Except.ok.inj ha
    exact ⟨rfl, h⟩

/-- What a call sees gives a column. The filter may object to it afterwards. -/
def Learns (s : QuasiNewton α) (now : Snapshot α) : Prop :=
  ∃ p s₁ s₂, s.preconditioner.accumulate now.residual = .ok p ∧
    { s with preconditioner := p }.reweigh now.iterate now.residual = .ok s₁ ∧
      s₁.extend now = .ok (s₂, true)

/-- A call on the data is accepted and appends a column. -/
def Appends (s : QuasiNewton α) (d : DataMap α) : Prop :=
  ∃ values old s', s.accept d = (.ok (values, old), s') ∧ s'.Learns ⟨values.sub old, values⟩

theorem learn_stable (hG : Stable G) {d : DataMap α} {now : Snapshot α}
    (h : G s.pendingClear s.windows) (hl : s.learn d now = .ok s') :
    (s.Learns now → s'.pendingClear = false) ∧ G s'.pendingClear s'.windows := by
  obtain ⟨p, hp, hl⟩ := bind_ok hl
  obtain ⟨s₁, h₁, hl⟩ := bind_ok hl
  obtain ⟨⟨s₂, added⟩, h₂, hl⟩ := bind_ok hl
  obtain ⟨s₃, h₃, hl⟩ := bind_ok hl
  have hs₁ := reweigh_stable hG (s := { s with preconditioner := p }) h h₁
  obtain ⟨hadded, hs₂⟩ := extend_stable hG hs₁ h₂
  obtain ⟨hpending, hs'⟩ := settle_stable hG hs₂ h₃ hl
  refine ⟨?_, hs'⟩
  rintro ⟨p', s₁', s₂', hp', h₁', h₂'⟩
  -- it is the same column
  obtain rfl := Except.ok.inj (hp.symm.trans hp')
  obtain rfl := Except.ok.inj (h₁.symm.trans h₁')
  obtain ⟨rfl, rfl⟩ := Prod.mk.inj (Except.ok.inj (h₂.symm.trans h₂'))
  exact hpending.trans (hadded rfl)

end

end QuasiNewton

/-! ## What the settings want -/

/-- While windows are reused, there are no more of them than wanted, and none without columns; if
none is reused and nothing is pending, there is the current one alone. -/
structure Config.Allows {α : Type} (c : Config α) (pending : Bool) (w : Windows) : Prop where
  within : 1 ≤ c.timestepsReused → w.Within c.timestepsReused
  single : c.timestepsReused = 0 → c.forceInitialRelaxation = false → pending = false →
    w.sizes.length ≤ 1

namespace QuasiNewton

variable {s s' : QuasiNewton α}

omit [Scalar α] in
theorem allows_fresh (c : Config α) : c.Allows false .fresh :=
  ⟨fun _ => ⟨Nat.le_add_left 1 _, fun _ hn => absurd hn List.not_mem_nil⟩,
    fun _ _ _ => Nat.le_refl 1⟩

omit [Scalar α] in
theorem allows_stable (c : Config α) : Stable c.Allows where
  push {_ w} h := by
    have hl := Windows.length_grow_le w.sizes
    refine ⟨fun hT => ⟨?_, ?_⟩, fun hT hforce hp => ?_⟩
    · have hw := (h.within hT).length
      show (Windows.grow w.sizes).length ≤ _
      omega
    · show ∀ n ∈ (Windows.grow w.sizes).dropLast, 0 < n
      rw [Windows.dropLast_grow]
      exact (h.within hT).holding
    · have hw := h.single hT hforce hp
      show (Windows.grow w.sizes).length ≤ _
      omega
  erase {_ w} i h := by
    have hl := Windows.length_shrink_le w.sizes i
    exact ⟨fun hT =>
        ⟨hl.trans (h.within hT).length, Windows.holding_shrink (h.within hT).holding i⟩,
      fun hT hforce hp => hl.trans (h.single hT hforce hp)⟩
  discharge _ := allows_fresh c

/-- The windows are as the settings want them. -/
def Pruned (s : QuasiNewton α) : Prop := s.config.Allows s.pendingClear s.windows

namespace Pruned

omit [Scalar α] in
theorem of_fresh (hp : s.pendingClear = false) (hw : s.windows = .fresh) : s.Pruned := by
  rw [Pruned, hp, hw]
  exact allows_fresh s.config

theorem adapt (h : s.Pruned) (d : DataMap α) : (s.adapt d).Pruned := by
  unfold QuasiNewton.adapt
  split
  next => exact of_fresh rfl rfl
  next => exact h

theorem start {d : DataMap α} (hs : s.start d = .ok s') : s'.Pruned := by
  obtain ⟨-, rfl⟩ := start_eq hs
  exact of_fresh rfl rfl

theorem step (h : s.Pruned) {d d' : DataMap α} {values old : Vec α}
    (hs : s.step d values old = .ok (s', d')) :
    (s.Learns ⟨values.sub old, values⟩ → s'.pendingClear = false) ∧ s'.Pruned := by
  obtain ⟨s₁, coefficients, -, hl, -, rfl⟩ := step_eq hs
  have hconfig : s₁.config = s.config := (learn_framed hl).1.setup.config
  obtain ⟨hpending, hs₁⟩ := learn_stable (allows_stable s.config) h hl
  refine ⟨hpending, ?_⟩
  show s₁.config.Allows _ _
  rw [hconfig]
  exact hs₁

theorem perform (h : s.Pruned) {d : DataMap α} {r : Reply (QuasiNewton α) α}
    (hp : s.perform d = .ok r) :
    (s.Appends d → r.scheme.pendingClear = false) ∧ r.scheme.Pruned := by
  unfold QuasiNewton.perform at hp
  obtain ⟨answer, s', ha⟩ : ∃ answer s', s.accept d = (answer, s') := ⟨_, _, rfl⟩
  rw [ha] at hp
  have hs' : s'.Pruned := by
    rcases accept_cases ha with ⟨rfl, -⟩ | ⟨rfl, -⟩
    · exact h
    · exact h.adapt d
  cases answer with
  | error fault =>
    obtain rfl := Except.ok.inj hp
    refine ⟨?_, hs'⟩
    rintro ⟨values, old, t, ht, -⟩
    cases (Prod.mk.inj (ha.symm.trans ht)).1
  | ok pair =>
    obtain ⟨⟨s₁, d'⟩, hs, hp⟩ := bind_ok hp
    obtain rfl := Except.ok.inj hp
    obtain ⟨hpending, hs₁⟩ := hs'.step hs
    refine ⟨?_, hs₁⟩
    rintro ⟨values, old, t, ht, hlearns⟩
    obtain ⟨hpair, rfl⟩ := Prod.mk.inj (ha.symm.trans ht)
    obtain rfl := Except.ok.inj hpair
    exact hpending hlearns

end Pruned

/-! ## The end of a window -/

/-- A call at the end of a window is refused before the start; otherwise what the finished window
leaves is retained and a window begins. -/
theorem converged_eq {d : DataMap α} {r : Reply (QuasiNewton α) α} (h : s.converged d = .ok r) :
    (s.started = false ∧ r.answer.isOk = false ∧ r.scheme = s) ∨
    (s.started = true ∧ r.answer = .ok () ∧ ∃ s₁, QuasiNewton.retain { s with
        history := { s.history with windows := s.history.windows.finish } } = .ok s₁ ∧
      r.scheme = { s₁ with
        history := { s₁.history with windows := s₁.history.windows.begin }
        firstIteration := true
        firstWindow := false }) := by
  unfold converged at h
  cases hst : s.started with
  | false =>
    rw [hst] at h
    obtain rfl := Except.ok.inj h
    exact .inl ⟨rfl, rfl, rfl⟩
  | true =>
    rw [hst] at h
    obtain ⟨s₁, hs₁, h⟩ := bind_ok h
    obtain rfl := Except.ok.inj h
    exact .inr ⟨rfl, rfl, s₁, hs₁, rfl⟩

theorem converged_answered {d : DataMap α} {r : Reply (QuasiNewton α) α}
    (h : s.converged d = .ok r) (hans : r.answer = .ok ()) : ∃ s₁, QuasiNewton.retain { s with
        history := { s.history with windows := s.history.windows.finish } } = .ok s₁ ∧
      r.scheme = { s₁ with
        history := { s₁.history with windows := s₁.history.windows.begin }
        firstIteration := true
        firstWindow := false } := by
  rcases converged_eq h with ⟨-, hno, -⟩ | ⟨-, -, hretained⟩
  · rw [hans] at hno
    cases hno
  · exact hretained

namespace Pruned

theorem converged (h : s.Pruned) {d : DataMap α} {r : Reply (QuasiNewton α) α}
    (hc : s.converged d = .ok r) : r.scheme.Pruned := by
  rcases converged_eq hc with ⟨-, -, hs⟩ | ⟨-, -, s₁, hr, hs⟩
  · rw [hs]
    exact h
  have hconfig : s₁.config = s.config := (retain_framed hr).setup.config
  rw [hs]
  show s₁.config.Allows s₁.pendingClear s₁.windows.begin
  rw [hconfig]
  unfold retain at hr
  split at hr
  next hT =>
    have hT' : s.config.timestepsReused = 0 := hT
    refine ⟨fun hpos => absurd hT' (by omega), fun _ hforce hpending => ?_⟩
    -- the next window does not begin with relaxation, so the columns are kept for now
    rw [if_neg (fun hf => Bool.false_ne_true (hforce.symm.trans hf))] at hr
    obtain rfl := Except.ok.inj hr
    exact absurd hpending.symm Bool.false_ne_true
  next hT =>
    have hT' : s.config.timestepsReused ≠ 0 := hT
    refine ⟨fun hpos => ?_, fun hno => absurd hno hT'⟩
    obtain ⟨-, hleft⟩ := removeWindows_trimmed hr
    have hleft' : s₁.windows.sizes = s.windows.finish.sizes.drop
      (s.windows.finish.sizes.length - s.config.timestepsReused) := hleft
    refine ⟨?_, ?_⟩
    · show (s₁.windows.sizes ++ [0]).length ≤ _
      rw [List.length_append, hleft', List.length_drop, List.length_singleton]
      omega
    · show ∀ n ∈ (s₁.windows.sizes ++ [0]).dropLast, 0 < n
      rw [List.dropLast_concat, hleft']
      exact fun n hn => Windows.holding_finish (h.within hpos).holding n (List.mem_of_mem_drop hn)

end Pruned

end QuasiNewton

/-! ## Runs -/

namespace Session

variable {σ σ' : Session α}

theorem call_pruned {c : Call α} (h : σ.scheme.Pruned) (hc : σ.call c = .ok σ') :
    σ'.scheme.Pruned := by
  cases served hc with
  | started hs => exact .start hs
  | refused => exact h
  | performed hp => exact (h.perform hp).2
  | converged hp => exact h.converged hp
  | reset => exact .of_fresh rfl rfl

theorem run_pruned {calls : List (Call α)} (h : σ.scheme.Pruned) (hr : σ.run calls = .ok σ') :
    σ'.scheme.Pruned :=
  run_keeps (P := fun τ => τ.scheme.Pruned) call_pruned h hr

/-- What is left of a list without its front, if that is what fails a test. -/
theorem drop_eq_filter {β : Type} {p : β → Bool} {m : Nat} {xs : List β}
    (hfront : ∀ x ∈ xs.take m, ¬ p x) (hrest : ∀ x ∈ xs.drop m, p x) :
    xs.drop m = xs.filter p := by
  conv_rhs => rw [← List.take_append_drop m xs, List.filter_append]
  rw [List.filter_eq_nil_iff.2 hfront, List.filter_eq_self.2 hrest, List.nil_append]

/-- How the columns of a scheme, which stand for the visits `ks`, outlive their window. -/
structure Retained (config : Config α) (σ : Session α) (ks : List Nat) : Prop where
  /-- No more finished windows have columns than are to be reused. -/
  finished : 1 ≤ config.timestepsReused →
    ((ks.map σ.chronicle.windowOf).dedup.filter (· ≠ σ.chronicle.window)).length ≤
      config.timestepsReused
  /-- At the end of a window exactly the columns of the newest windows that have any stay. -/
  newest : 1 ≤ config.timestepsReused → ∀ d r, σ.scheme.converged d = .ok r → r.answer = .ok () →
    ∃ m, QuasiNewton.Trimmed m σ.scheme r.scheme ∧
      ks.drop m = ks.filter fun k => Windows.newer (ks.map σ.chronicle.windowOf)
        (σ.chronicle.windowOf k) < config.timestepsReused
  /-- If none is to be reused and the next window begins with relaxation, no column stays. -/
  cleared : config.timestepsReused = 0 → config.forceInitialRelaxation = true →
    ∀ d r, σ.scheme.converged d = .ok r → r.answer = .ok () →
      Aligned ⟨r.scheme, σ.chronicle.turn⟩ []
  /-- If it does not, all columns stay for now. -/
  kept : config.timestepsReused = 0 → config.forceInitialRelaxation = false →
    ∀ d r, σ.scheme.converged d = .ok r → r.answer = .ok () →
      QuasiNewton.Trimmed 0 σ.scheme r.scheme
  /-- But a call that appends a column leaves none of a window before its own. -/
  replaced : config.timestepsReused = 0 → config.forceInitialRelaxation = false →
    ∀ d r, σ.scheme.perform d = .ok r → σ.scheme.Appends d →
      ∃ ks', Aligned ⟨r.scheme, (σ.chronicle.meet d).visit d⟩ ks' ∧
        ∀ k ∈ ks', ((σ.chronicle.meet d).visit d).windowOf k = (σ.chronicle.meet d).window

section
variable {W : Weighing α} {config : Config α} {ks : List Nat}

/-- Those that go at the end of a window have their windows in front. -/
theorem newest_retained (hp : σ.scheme.Pruned) (ha : σ.Aligned ks)
    (hconfig : σ.scheme.config = config) (hT : 1 ≤ config.timestepsReused) {d : DataMap α}
    {r : Reply (QuasiNewton α) α} (hc : σ.scheme.converged d = .ok r) (hans : r.answer = .ok ()) :
    ∃ m, QuasiNewton.Trimmed m σ.scheme r.scheme ∧
      ks.drop m = ks.filter fun k => Windows.newer (ks.map σ.chronicle.windowOf)
        (σ.chronicle.windowOf k) < config.timestepsReused := by
  subst hconfig
  obtain ⟨s₁, hr, hs⟩ := QuasiNewton.converged_answered hc hans
  rw [QuasiNewton.retain, if_neg (Nat.one_le_iff_ne_zero.1 hT)] at hr
  obtain ⟨ht, -⟩ := QuasiNewton.removeWindows_trimmed hr
  rw [hs]
  refine ⟨_, ⟨ht.residuals, ht.iterates, ht.secondary, ht.factorization⟩, ?_⟩
  obtain ⟨ws, -, hgroups⟩ := ha.windows
  obtain ⟨ws', -, hfinished⟩ := hgroups.finish
  have hpos := Windows.holding_finish (hp.within hT).holding
  refine drop_eq_filter (fun k hk => ?_) (fun k hk => ?_)
  · have hold := hfinished.le_newer hpos rfl
      (by rw [← List.map_take]; exact List.mem_map_of_mem hk)
    rw [decide_eq_true_eq]
    exact Nat.not_lt.2 hold
  · have hnew := hfinished.newer_lt hpos (Nat.le_refl _)
      (by rw [← List.map_drop]; exact List.mem_map_of_mem hk)
    exact decide_eq_true hnew

theorem cleared_retained (h : σ.Sound W) (hconfig : σ.scheme.config = config)
    (hT : config.timestepsReused = 0) (hforce : config.forceInitialRelaxation = true)
    {d : DataMap α} {r : Reply (QuasiNewton α) α} (hc : σ.scheme.converged d = .ok r)
    (hans : r.answer = .ok ()) : Aligned ⟨r.scheme, σ.chronicle.turn⟩ [] := by
  subst hconfig
  have hsound := converged_sound h hc
  rw [hans] at hsound
  obtain ⟨ks', ha, -⟩ := hsound.aligned
  obtain ⟨s₁, hr, hs⟩ := QuasiNewton.converged_answered hc hans
  rw [QuasiNewton.retain, if_pos hT, if_pos hforce] at hr
  obtain rfl := Except.ok.inj hr
  have hnone : ks' = [] := by
    refine List.length_eq_zero_iff.1 (ha.residuals.symm.trans ?_)
    show r.scheme.history.residuals.length = 0
    rw [hs]
    rfl
  rw [hnone] at ha
  exact ha

theorem kept_retained (hconfig : σ.scheme.config = config)
    (hT : config.timestepsReused = 0) (hforce : config.forceInitialRelaxation = false)
    {d : DataMap α} {r : Reply (QuasiNewton α) α} (hc : σ.scheme.converged d = .ok r)
    (hans : r.answer = .ok ()) : QuasiNewton.Trimmed 0 σ.scheme r.scheme := by
  subst hconfig
  obtain ⟨s₁, hr, hs⟩ := QuasiNewton.converged_answered hc hans
  rw [QuasiNewton.retain, if_pos hT,
    if_neg (fun hf => Bool.false_ne_true (hforce.symm.trans hf))] at hr
  obtain rfl := Except.ok.inj hr
  rw [hs]
  exact ⟨rfl, rfl, fun _ => rfl, rfl⟩

/-- Once nothing is pending there is the current window alone. -/
theorem replaced_retained (h : σ.Sound W) (hp : σ.scheme.Pruned)
    (hconfig : σ.scheme.config = config) (hT : config.timestepsReused = 0)
    (hforce : config.forceInitialRelaxation = false) {d : DataMap α}
    {r : Reply (QuasiNewton α) α} (hr : σ.scheme.perform d = .ok r) (happ : σ.scheme.Appends d) :
    ∃ ks', Aligned ⟨r.scheme, (σ.chronicle.meet d).visit d⟩ ks' ∧
      ∀ k ∈ ks', ((σ.chronicle.meet d).visit d).windowOf k = (σ.chronicle.meet d).window := by
  subst hconfig
  obtain ⟨hpending, hpruned⟩ := hp.perform hr
  have hans : r.answer = .ok () := by
    obtain ⟨values, old, s', ha, -⟩ := happ
    rw [QuasiNewton.perform, ha] at hr
    obtain ⟨⟨s₁, d'⟩, -, hr⟩ := bind_ok hr
    obtain rfl := Except.ok.inj hr
    rfl
  have hsound := perform_sound h hr
  rw [hans] at hsound
  have hconfig : r.scheme.config = σ.scheme.config := hsound.follows.config.trans
    ((σ.chronicle.config_note (.perform d) true).trans h.follows.config.symm)
  obtain ⟨ks', ha, -⟩ := hsound.aligned
  refine ⟨ks', ha, fun k hk => ?_⟩
  obtain ⟨ws, hlast, hgroups⟩ := ha.windows
  have hone : ws.length ≤ 1 := by
    rw [hgroups.length]
    exact hpruned.single (hconfig ▸ hT) (hconfig ▸ hforce) (hpending happ)
  have hk' : ((σ.chronicle.meet d).visit d).windowOf k ∈ ws :=
    hgroups.mem_of_label (List.mem_map_of_mem hk)
  have hlast' : (σ.chronicle.meet d).window ∈ ws := List.mem_of_getLast? hlast
  obtain ⟨x, hx⟩ := List.length_eq_one_iff.1 (Nat.le_antisymm hone (List.length_pos_of_mem hk'))
  rw [hx, List.mem_singleton] at hk' hlast'
  exact hk'.trans hlast'.symm

end

/-- After every run of calls that breaks off nowhere the lists of the history belong together, and
at the end of a window the settings decide which columns stay. -/
theorem run_retained (config : Config α) (calls : List (Call α)) (σ : Session α)
    (h : (new config).run calls = .ok σ) : ∃ ks, σ.Aligned ks ∧ σ.Retained config ks := by
  have hsound := run_sound (new_sound .silent config) h
  have hpruned := run_pruned (.of_fresh rfl rfl) h
  have hconfig : σ.scheme.config = config := hsound.follows.config.trans (run_config h)
  obtain ⟨ks, ha, -⟩ := hsound.aligned
  refine ⟨ks, ha, fun hT => ?_, fun hT d r => newest_retained hpruned ha hconfig hT,
    fun hT hforce d r => cleared_retained hsound hconfig hT hforce,
    fun hT hforce d r => kept_retained hconfig hT hforce,
    fun hT hforce d r => replaced_retained hsound hpruned hconfig hT hforce⟩
  obtain ⟨ws, hlast, hgroups⟩ := ha.windows
  have hwithin := hpruned.within (hconfig.symm ▸ hT)
  rw [hconfig] at hwithin
  exact hgroups.finished_le hlast hwithin.length

/-- Two windows with a column each. -/
theorem run_retained_two_windows : ∃ σ : Session ℝ, (new plain).run
      [.start (single 1 0), .perform (single 1 0), .perform (single 3 1), .converged (single 3 3),
        .perform (single 4 3), .perform (single 6 4)] = .ok σ ∧
    ∃ ks, σ.Aligned ks ∧ σ.Retained plain ks := by
  obtain ⟨σ, hr, -⟩ := run_total [.start (single 1 0), .perform (single 1 0),
    .perform (single 3 1), .converged (single 3 3), .perform (single 4 3), .perform (single 6 4)]
    (new_exact plain)
  exact ⟨σ, hr, run_retained plain _ σ hr⟩

end Session

end Cosimulation.Acceleration

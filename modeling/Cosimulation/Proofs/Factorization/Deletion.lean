import Cosimulation.Proofs.Factorization.Insertion

/-!
# Deleting a column in exact arithmetic

Without column `i` the coefficients of each later column have one entry too many, on the diagonal of
the column before it. The sweep turns two neighbouring basis vectors at a time so that the surplus
entry of the first unsettled column vanishes (`rotation_spec`). The turned pair stays orthonormal,
and a column keeps its value when its coefficients are turned along (`combine_turn`).

`sweep_spec` collects what the whole sweep does: the new basis is orthonormal and lies in the span
of the old one, every column is the same combination as before, and no diagonal entry becomes
smaller, since the new one is the hypotenuse over the old one. With `Factorizes.delete` the
factorization of the remaining columns follows; the last basis vector, which no column needs any
more, is gone.
-/

namespace Cosimulation.Acceleration

open scoped RealInnerProductSpace

namespace Factorization

/-! ## One rotation -/

/-- A rotation onto the first axis, of a pair with positive second entry. -/
theorem rotation_spec (a : ℝ) {b : ℝ} (hb : 0 < b) :
    ∃ c s : ℝ, rotation a b = (c, s) ∧ c * c + s * s = 1 ∧ c * b - s * a = 0 ∧
      b ≤ c * a + s * b := by
  have hsq : 0 < a * a + b * b := add_pos_of_nonneg_of_pos (mul_self_nonneg a) (mul_pos hb hb)
  obtain ⟨l, hl, hpos, hmul⟩ : ∃ l, Real.sqrt (a * a + b * b) = l ∧ 0 < l ∧ l * l = a * a + b * b :=
    ⟨_, rfl, Real.sqrt_pos.2 hsq, Real.mul_self_sqrt hsq.le⟩
  have hz : (l == 0) = false := beq_eq_false_iff_ne.2 hpos.ne'
  refine ⟨a / l, b / l, ?_, ?_, ?_, ?_⟩
  · show (if (Real.sqrt (a * a + b * b) == 0) = true then ((1 : ℝ), (0 : ℝ)) else
      (a / Real.sqrt (a * a + b * b), b / Real.sqrt (a * a + b * b))) = _
    rw [hl, if_neg (ne_true_of_eq_false hz)]
  · rw [div_mul_div_comm, div_mul_div_comm, hmul, ← add_div, div_self hsq.ne']
  · ring
  · -- the new entry is the hypotenuse
    have hh : a / l * a + b / l * b = l := by
      rw [div_mul_eq_mul_div, div_mul_eq_mul_div, ← add_div, ← hmul, mul_div_assoc,
        div_self hpos.ne', mul_one]
    rw [hh, mul_self_le_mul_self_iff hb.le hpos.le, hmul]
    exact le_add_of_nonneg_left (mul_self_nonneg a)

section
variable {E : Type} [NormedAddCommGroup E] [InnerProductSpace ℝ E]

/-- Turning two vectors of an orthonormal list keeps it orthonormal. -/
theorem orthonormal_turn {c s : ℝ} (hcs : c * c + s * s = 1) {x y : E} {zs : List E}
    (h : OrthonormalList (x :: y :: zs)) :
    OrthonormalList ((c • x + s • y) :: (c • y - s • x) :: zs) := by
  obtain ⟨hx, hxyz, hyz⟩ := OrthonormalList.cons_iff.1 h
  obtain ⟨hy, hyz', hzs⟩ := OrthonormalList.cons_iff.1 hyz
  have hxy : ⟪x, y⟫ = 0 := hxyz y List.mem_cons_self
  have hyx : ⟪y, x⟫ = 0 := by rw [real_inner_comm, hxy]
  have hxx : ⟪x, x⟫ = 1 := h.inner_self List.mem_cons_self
  have hyy : ⟪y, y⟫ = 1 := hyz.inner_self List.mem_cons_self
  have hunit : ∀ v : E, ⟪v, v⟫ = 1 → ‖v‖ = 1 := by
    intro v hv
    rw [real_inner_self_eq_norm_sq] at hv
    exact (pow_eq_one_iff_of_nonneg (norm_nonneg v) two_ne_zero).1 hv
  refine OrthonormalList.cons_iff.2
    ⟨hunit _ ?_, ?_, OrthonormalList.cons_iff.2 ⟨hunit _ ?_, ?_, hzs⟩⟩
  · simp only [inner_add_left, inner_add_right, real_inner_smul_left, real_inner_smul_right, hxx,
      hyy, hxy, hyx]
    linarith
  · intro p hp
    rcases List.mem_cons.1 hp with rfl | hp
    · simp only [inner_add_left, inner_sub_right, real_inner_smul_left, real_inner_smul_right, hxx,
        hyy, hxy, hyx]
      ring
    · rw [inner_add_left, real_inner_smul_left, real_inner_smul_left,
        hxyz p (List.mem_cons_of_mem _ hp), hyz' p hp, mul_zero, mul_zero, add_zero]
  · simp only [inner_sub_left, inner_sub_right, real_inner_smul_left, real_inner_smul_right, hxx,
      hyy, hxy, hyx]
    linarith
  · intro p hp
    rw [inner_sub_left, real_inner_smul_left, real_inner_smul_left, hyz' p hp,
      hxyz p (List.mem_cons_of_mem _ hp), mul_zero, mul_zero, sub_zero]

/-- A column keeps its value when basis and coefficients are turned together. -/
theorem combine_turn {c s : ℝ} (hcs : c * c + s * s = 1) (x y : E) (zs : List E) {r : List ℝ}
    (hr : 2 ≤ r.length) :
    (turn c s r).1 • (c • x + s • y) + combine (turn c s r).2 ((c • y - s • x) :: zs) =
      combine r (x :: y :: zs) := by
  match r, hr with
  | a :: b :: rest, _ =>
    show (c * a + s * b) • (c • x + s • y) + combine ((c * b - s * a) :: rest) _ = _
    rw [combine_cons, combine_cons, combine_cons]
    have hx : (c * a + s * b) * c - (c * b - s * a) * s = a := by linear_combination a * hcs
    have hy : (c * a + s * b) * s + (c * b - s * a) * c = b := by linear_combination b * hcs
    calc (c * a + s * b) • (c • x + s • y) + ((c * b - s * a) • (c • y - s • x) + combine rest zs)
        = ((c * a + s * b) * c - (c * b - s * a) * s) • x +
            (((c * a + s * b) * s + (c * b - s * a) * c) • y + combine rest zs) := by module
      _ = a • x + (b • y + combine rest zs) := by rw [hx, hy]

end

/-- A rotation leaves the last coefficient of a column with more than two. -/
theorem getLastD_turn (c s : ℝ) {r : List ℝ} (hr : 3 ≤ r.length) :
    (turn c s r).2.getLastD 0 = r.getLastD 0 := by
  match r, hr with
  | a :: b :: d :: rest, _ => rfl

/-! ## The sweep -/

section
variable {E : Type} [NormedAddCommGroup E] [InnerProductSpace ℝ E]

/-- Coefficients on a new basis in place of those on the old one: the column keeps its value, and
its last coefficient does not decrease. -/
structure Resettles (ps qs : List E) (r r' : List ℝ) : Prop where
  combination : combine r' qs = combine r ps
  last_le : r.getLastD 0 ≤ r'.getLastD 0

/-- What a sweep over the basis vectors `ps` achieves. -/
structure Swept (ps : List E) (columns : List (List ℝ)) (qs : List E) (settled : List (List ℝ)) :
    Prop where
  orthonormal : OrthonormalList qs
  /-- What is orthogonal to the old basis is orthogonal to the new one. -/
  orthogonal : ∀ x : E, (∀ p ∈ ps, ⟪x, p⟫ = 0) → ∀ q ∈ qs, ⟪x, q⟫ = 0
  columns : List.Forall₂ (Resettles ps qs) columns settled

theorem getLastD_cons_of_ne_nil {β : Type} {d : β} (a : β) {r : List β} (h : r ≠ []) :
    (a :: r).getLastD d = r.getLastD d := by
  match r, h with
  | b :: r, _ => rfl

variable {c s : ℝ} {x y : E} {zs qs : List E}

/-- The settled first coefficient goes in front of the coefficients that the rest of the sweep
settles. -/
theorem Resettles.cons (hcs : c * c + s * s = 1) {r r' : List ℝ} (hr : 3 ≤ r.length) (hr' : r' ≠ [])
    (h : Resettles ((c • y - s • x) :: zs) qs (turn c s r).2 r') :
    Resettles (x :: y :: zs) ((c • x + s • y) :: qs) r ((turn c s r).1 :: r') := by
  refine ⟨?_, ?_⟩
  · rw [combine_cons, h.combination]
    exact combine_turn hcs x y zs (Nat.le_of_succ_le hr)
  · rw [getLastD_cons_of_ne_nil _ hr', ← getLastD_turn c s hr]
    exact h.last_le

theorem forall₂_resettles_cons (hcs : c * c + s * s = 1) : ∀ {columns settled : List (List ℝ)},
    (∀ r ∈ columns, 3 ≤ r.length) → (∀ r' ∈ settled, r' ≠ []) →
    List.Forall₂ (Resettles ((c • y - s • x) :: zs) qs) (columns.map fun r => (turn c s r).2)
      settled →
    List.Forall₂ (Resettles (x :: y :: zs) ((c • x + s • y) :: qs)) columns
      ((columns.map fun r => (turn c s r).1).zipWith (· :: ·) settled) := by
  intro columns
  induction columns with
  | nil => intro settled _ _ _; exact .nil
  | cons r columns ih =>
    intro settled hr hr' h
    cases h with
    | cons h1 h2 =>
      exact .cons (h1.cons hcs (hr r List.mem_cons_self) (hr' _ List.mem_cons_self))
        (ih (fun t ht => hr t (List.mem_cons_of_mem _ ht))
          (fun t ht => hr' t (List.mem_cons_of_mem _ ht)) h2)

/-- One step of the sweep, after which the rest of it starts from the second turned vector. -/
theorem Swept.step {a b : ℝ} {columns settled : List (List ℝ)} (hcs : c * c + s * s = 1)
    (hzero : c * b - s * a = 0) (hle : b ≤ c * a + s * b) (ho : OrthonormalList (x :: y :: zs))
    (hr : ∀ r ∈ columns, 3 ≤ r.length) (hr' : ∀ r' ∈ settled, r' ≠ [])
    (h : Swept ((c • y - s • x) :: zs) (columns.map fun r => (turn c s r).2) qs settled) :
    Swept (x :: y :: zs) ([a, b] :: columns) ((c • x + s • y) :: qs)
      ([c * a + s * b] :: (columns.map fun r => (turn c s r).1).zipWith (· :: ·) settled) := by
  obtain ⟨hunit, horth, -⟩ := OrthonormalList.cons_iff.1 (orthonormal_turn hcs ho)
  refine ⟨OrthonormalList.cons_iff.2 ⟨hunit, h.orthogonal _ horth, h.orthonormal⟩, ?_, ?_⟩
  · intro v hv
    have hvx := hv x List.mem_cons_self
    have hvy := hv y (List.mem_cons_of_mem _ List.mem_cons_self)
    refine List.forall_mem_cons.2 ⟨?_, h.orthogonal v (List.forall_mem_cons.2 ⟨?_, ?_⟩)⟩
    · rw [inner_add_right, real_inner_smul_right, real_inner_smul_right, hvx, hvy, mul_zero,
        mul_zero, add_zero]
    · rw [inner_sub_right, real_inner_smul_right, real_inner_smul_right, hvx, hvy, mul_zero,
        mul_zero, sub_zero]
    · exact fun z hz => hv z (List.mem_cons_of_mem _ (List.mem_cons_of_mem _ hz))
  · refine .cons ⟨?_, hle⟩ (forall₂_resettles_cons hcs hr hr' h.columns)
    -- the surplus entry of the first column is gone
    have ht := combine_turn hcs x y zs (r := [a, b]) (Nat.le_refl 2)
    rw [show (turn c s [a, b]).2 = [c * b - s * a] from rfl, hzero, combine_cons, zero_smul,
      zero_add, combine_nil] at ht
    rw [combine_cons, combine_nil]
    exact ht

end

theorem ne_nil_of_staircase {rs : List (List ℝ)} {m : Nat} (h : Staircase (m + 1) rs) :
    ∀ r ∈ rs, r ≠ [] := by
  rintro r hr rfl
  obtain ⟨j, hj, he⟩ := List.mem_iff_getElem.1 hr
  have hl := h.length_getElem j hj
  rw [he, List.length_nil] at hl
  omega

variable {n : Nat}

theorem length_sweep : ∀ {qs : List (Vec ℝ)} {q : Vec ℝ} {columns : List (List ℝ)},
    (∀ p ∈ q :: qs, p.length = n) → ∀ p ∈ (retriangulate q qs columns).1, p.length = n := by
  intro qs
  induction qs with
  | nil => intro q columns _ p hp; exact absurd hp List.not_mem_nil
  | cons p ps ih =>
    intro q columns hl
    have hq : q.length = n := hl q List.mem_cons_self
    have hp : p.length = n := hl p (List.mem_cons_of_mem _ List.mem_cons_self)
    match columns with
    | [] => intro x hx; exact absurd hx List.not_mem_nil
    | [] :: _ => intro x hx; exact absurd hx List.not_mem_nil
    | [_] :: _ => intro x hx; exact absurd hx List.not_mem_nil
    | (a :: b :: rest) :: columns =>
      rw [retriangulate_cons q p ps a b rest columns rfl]
      intro x hx
      rcases List.mem_cons.1 hx with rfl | hx
      · rw [Vec.length_add (by rw [Vec.length_scale, Vec.length_scale, hq, hp]), Vec.length_scale,
          hp]
      · refine ih (fun y hy => ?_) x hx
        rcases List.mem_cons.1 hy with rfl | hy
        · rw [Vec.length_sub (by rw [Vec.length_scale, Vec.length_scale, hq, hp]), Vec.length_scale,
            hq]
        · exact hl y (List.mem_cons_of_mem _ (List.mem_cons_of_mem _ hy))

/-- The sweep turns the basis and settles the columns. -/
theorem sweep_spec : ∀ {qs : List (Vec ℝ)} {q : Vec ℝ} {columns : List (List ℝ)},
    (∀ p ∈ q :: qs, p.length = n) → OrthonormalList ((q :: qs).map (euclid n)) →
    columns.length = qs.length → Staircase 2 columns → (∀ r ∈ columns, 0 < r.getLastD 0) →
      Swept ((q :: qs).map (euclid n)) columns ((retriangulate q qs columns).1.map (euclid n))
        (retriangulate q qs columns).2 := by
  intro qs
  induction qs with
  | nil =>
    intro q columns _ _ hc _ _
    rw [List.length_eq_zero_iff.1 hc]
    exact ⟨OrthonormalList.nil, fun _ _ _ h => absurd h List.not_mem_nil, .nil⟩
  | cons p ps ih =>
    intro q columns hl ho hc hst hpos
    match columns, hc, hst, hpos with
    | [a, b] :: columns, hc, hst, hpos =>
      have hq : q.length = n := hl q List.mem_cons_self
      have hp : p.length = n := hl p (List.mem_cons_of_mem _ List.mem_cons_self)
      have hb : 0 < b := hpos [a, b] List.mem_cons_self
      obtain ⟨c, s, hr, hcs, hzero, hle⟩ := rotation_spec a hb
      have hqs (t : ℝ) : (q.scale t).length = n := (Vec.length_scale t q).trans hq
      have hps (t : ℝ) : (p.scale t).length = n := (Vec.length_scale t p).trans hp
      have hnext : euclid n (Vec.sub (p.scale c) (q.scale s)) =
          c • euclid n p - s • euclid n q := by
        rw [euclid_sub (hps c) (hqs s), euclid_scale, euclid_scale]
      -- the later columns reach beyond the turned pair, so their diagonal stays
      have hlong : ∀ r ∈ columns, 3 ≤ r.length := by
        intro r hr
        obtain ⟨j, hj, rfl⟩ := List.mem_iff_getElem.1 hr
        rw [hst.2.length_getElem j hj]
        omega
      have hst' : Staircase 2 (columns.map fun r => (turn c s r).2) :=
        staircase_turn c s (by omega) hst.2
      have hc' : (columns.map fun r => (turn c s r).2).length = ps.length := by
        rw [List.length_map]
        exact Nat.succ.inj hc
      have hi := ih (q := Vec.sub (p.scale c) (q.scale s)) ?_ ?_ hc' hst' ?_
      · rw [retriangulate_cons q p ps a b [] columns hr]
        simp only [List.map_cons]
        rw [euclid_add (hqs c) (hps s), euclid_scale, euclid_scale]
        simp only [List.map_cons, hnext] at hi
        exact hi.step hcs hzero hle ho hlong
          (ne_nil_of_staircase (retriangulate_shape ps _ _ hc' hst').2.2)
      · refine List.forall_mem_cons.2 ⟨?_, fun z hz =>
          hl z (List.mem_cons_of_mem _ (List.mem_cons_of_mem _ hz))⟩
        rw [Vec.length_sub ((hps c).trans (hqs s).symm), hqs s]
      · rw [List.map_cons, hnext]
        exact (OrthonormalList.cons_iff.1 (orthonormal_turn hcs ho)).2.2
      · intro r' hr'
        obtain ⟨r, hr, rfl⟩ := List.mem_map.1 hr'
        rw [getLastD_turn c s (hlong r hr)]
        exact hpos r (List.mem_cons_of_mem _ hr)

/-! ## Deleting -/

section
variable {E : Type} [NormedAddCommGroup E] [InnerProductSpace ℝ E]

theorem getLastD_drop {i : Nat} {r : List ℝ} (h : i < r.length) :
    (r.drop i).getLastD 0 = r.getLastD 0 := by
  rw [List.getLastD_eq_getLast?, List.getLast?_drop, if_neg (Nat.not_le.2 h),
    ← List.getLastD_eq_getLast?]

theorem getLastD_append (r : List ℝ) {r' : List ℝ} (h : r' ≠ []) :
    (r ++ r').getLastD 0 = r'.getLastD 0 := by
  rw [List.getLastD_eq_getLast?, List.getLast?_append_of_ne_nil r h, ← List.getLastD_eq_getLast?]

/-- A column whose coefficients end with the front of the basis is not affected by a change of the
rest. -/
theorem Expresses.exchange {ps qs : List E} {r : List ℝ} {c : E} (h : Expresses (ps ++ qs) r c)
    (hr : r.length ≤ ps.length) (qs' : List E) : Expresses (ps ++ qs') r c :=
  Expresses.append_right ⟨(combine_append_right hr qs).symm.trans h.combination, h.accepted⟩ hr qs'

/-- A column whose coefficients reach beyond the front of the basis takes over the resettled rest.
-/
theorem Expresses.resettle {ps qs qs' : List E} {r r' : List ℝ} {c : E}
    (h : Expresses (ps ++ qs) r c) (hr : ps.length < r.length) (hr' : r' ≠ [])
    (hs : Resettles qs qs' (r.drop ps.length) r') :
    Expresses (ps ++ qs') (r.take ps.length ++ r') c := by
  have hl : (r.take ps.length).length = ps.length := by
    rw [List.length_take]
    omega
  refine ⟨?_, ?_⟩
  · calc combine (r.take ps.length ++ r') (ps ++ qs')
        = combine (r.take ps.length) ps + combine (r.drop ps.length) qs := by
          rw [combine_append hl, hs.combination]
      _ = combine (r.take ps.length ++ r.drop ps.length) (ps ++ qs) := (combine_append hl _ _).symm
      _ = c := by rw [List.take_append_drop, h.combination]
  · rw [getLastD_append _ hr']
    refine lt_of_lt_of_le ?_ hs.last_le
    rw [getLastD_drop hr]
    exact h.accepted

theorem forall₂_resettle {ps qs qs' : List E} {cs : List E} : ∀ {later settled : List (List ℝ)},
    (∀ r ∈ later, ps.length < r.length) → (∀ r' ∈ settled, r' ≠ []) →
    List.Forall₂ (Expresses (ps ++ qs)) later cs →
    List.Forall₂ (Resettles qs qs') (later.map (List.drop ps.length)) settled →
      List.Forall₂ (Expresses (ps ++ qs'))
        (List.zipWith (· ++ ·) (later.map (List.take ps.length)) settled) cs := by
  intro later settled hr hr' h
  induction h generalizing settled with
  | nil => intro _; exact .nil
  | cons h _ ih =>
    intro hs
    cases hs with
    | cons hs1 hs2 =>
      exact .cons (h.resettle (hr _ List.mem_cons_self) (hr' _ List.mem_cons_self) hs1)
        (ih (fun t ht => hr t (List.mem_cons_of_mem _ ht))
          (fun t ht => hr' t (List.mem_cons_of_mem _ ht)) hs2)

end

section
variable {f : Factorization ℝ} {cs : List (Vec ℝ)} {i : Nat} {q : Vec ℝ} {qs : List (Vec ℝ)}

/-- The basis is split where the sweep starts. -/
theorem points_eq_append (hd : f.basis.drop i = q :: qs) :
    f.points n = (f.basis.take i).map (euclid n) ++ (q :: qs).map (euclid n) := by
  rw [← hd, ← List.map_append, List.take_append_drop]
  rfl

theorem Factorizes.swept (hf : Factorizes n f cs) (hd : f.basis.drop i = q :: qs) :
    Swept ((q :: qs).map (euclid n)) ((f.upper.drop (i + 1)).map (List.drop i))
      ((f.sweep i q qs).1.map (euclid n)) (f.sweep i q qs).2 := by
  have ho := hf.orthonormal
  rw [points_eq_append hd] at ho
  refine sweep_spec (fun p hp => hf.basis_length p (List.mem_of_mem_drop (hd.symm ▸ hp)))
    (OrthonormalList.append_iff.1 ho).2.1 (hf.shaped.length_later hd) (hf.shaped.later i) ?_
  intro r' hr'
  obtain ⟨r, hr, rfl⟩ := List.mem_map.1 hr'
  rw [getLastD_drop (Nat.lt_of_succ_lt (hf.shaped.lt_length_later r hr))]
  exact hf.last_pos r (List.mem_of_mem_drop hr)

/-- The new basis has the old vectors in front and the turned ones behind. -/
theorem Factorizes.swept_basis (hf : Factorizes n f cs) (hd : f.basis.drop i = q :: qs) :
    (∀ p ∈ f.basis.take i ++ (f.sweep i q qs).1, p.length = n) ∧
      OrthonormalList ((f.basis.take i ++ (f.sweep i q qs).1).map (euclid n)) := by
  have hs := hf.swept hd
  have ho := hf.orthonormal
  rw [points_eq_append hd] at ho
  obtain ⟨hfront, -, hcross⟩ := OrthonormalList.append_iff.1 ho
  refine ⟨fun p hp => ?_, ?_⟩
  · rcases List.mem_append.1 hp with hp | hp
    · exact hf.basis_length p (List.mem_of_mem_take hp)
    · exact length_sweep (fun p hp => hf.basis_length p (List.mem_of_mem_drop (hd.symm ▸ hp))) p hp
  · rw [List.map_append]
    exact OrthonormalList.append_iff.2
      ⟨hfront, hs.orthonormal, fun p hp => hs.orthogonal p (hcross p hp)⟩

/-- On the new basis, the columns in front keep their coefficients and those behind take the settled
ones. -/
theorem Factorizes.swept_columns (hf : Factorizes n f cs) (hi : i < f.columns)
    (hd : f.basis.drop i = q :: qs) :
    List.Forall₂ (Expresses ((f.basis.take i ++ (f.sweep i q qs).1).map (euclid n)))
      (f.upper.take i ++
        List.zipWith (· ++ ·) ((f.upper.drop (i + 1)).map (List.take i)) (f.sweep i q qs).2)
      ((cs.eraseIdx i).map (euclid n)) := by
  have hs := hf.swept hd
  have hex := hf.expresses
  rw [points_eq_append hd] at hex
  have hfront : ((f.basis.take i).map (euclid n)).length = i := by
    rw [List.length_map, List.length_take]
    exact Nat.min_eq_left (Nat.le_of_lt hi)
  rw [← List.eraseIdx_map, List.eraseIdx_eq_take_drop_succ (List.map _ cs), List.map_append]
  refine List.rel_append ?_ ?_
  · -- the columns in front do not use the basis that was turned
    have hshort : ∀ r ∈ f.upper.take i, r.length ≤ ((f.basis.take i).map (euclid n)).length := by
      intro r hr
      obtain ⟨j, hj, rfl⟩ := List.mem_iff_getElem.1 hr
      rw [List.length_take] at hj
      rw [hfront, (hf.shaped.stairs.take i).length_getElem]
      omega
    refine ((List.forall₂_and_left _ _).2 ⟨hshort, List.forall₂_take i hex⟩).imp ?_
    rintro r c ⟨hr, hx⟩
    exact hx.exchange hr _
  · obtain ⟨-, -, hst⟩ :=
      retriangulate_shape qs q _ (hf.shaped.length_later hd) (hf.shaped.later i)
    have hlater := forall₂_resettle
      (fun r hr => by rw [hfront]; exact Nat.lt_of_succ_lt (hf.shaped.lt_length_later r hr))
      (ne_nil_of_staircase hst) (List.forall₂_drop (i + 1) hex) (by rw [hfront]; exact hs.columns)
    rwa [hfront] at hlater

end

/-- Without one column the factorization is one of the columns that remain. -/
theorem Factorizes.delete {f : Factorization ℝ} {cs : List (Vec ℝ)} (hf : Factorizes n f cs)
    {i : Nat} (hi : i < f.columns) :
    ∃ f', f.delete i = .ok f' ∧ Factorizes n f' (cs.eraseIdx i) := by
  obtain ⟨q, qs, hd⟩ : ∃ q qs, f.basis.drop i = q :: qs := by
    obtain ⟨q, qs, h⟩ := List.exists_cons_of_length_pos (l := f.basis.drop i) (by
      rw [List.length_drop]
      exact Nat.sub_pos_of_lt hi)
    exact ⟨q, qs, h⟩
  obtain ⟨hbasis, ho⟩ := hf.swept_basis hd
  have hshaped := hf.shaped.shrunk hd
  refine ⟨f.shrunk i q qs, ?_, hf.rows, hshaped, hbasis, fun c hc =>
    hf.column_length c (List.mem_of_mem_eraseIdx hc), ho, hf.swept_columns hi hd, ?_⟩
  · unfold Factorization.delete
    rw [hd]
    exact hshaped.checked hbasis ho
  · show f.norms.eraseIdx i = _
    rw [hf.norms, List.eraseIdx_map]

end Factorization

end Cosimulation.Acceleration

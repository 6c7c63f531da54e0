import Cosimulation.Acceleration.Filter

/-!
# The shape of a factorization

The coefficients of column `j` reach to basis vector `j`, so the coefficient lists grow by one from
each column to the next: a staircase (`Staircase`). `Shaped` adds that there are as many coefficient
lists and norms as basis vectors.

Nothing here depends on what the scalars compute. A shaped factorization has a square of
coefficients that vanish below the diagonal (`Shaped.shape_eq`, `Shaped.entry_eq_zero`). Whatever
operation succeeds keeps the shape and changes the number of columns by what it says:
`insert_shaped` by one more, `delete_shaped` by one less, `insertAll_shaped` by the number of
columns that were not refused, `apply_shaped` by the number of removed positions.
-/

namespace Cosimulation.Acceleration

variable {α : Type}

/-! ## Removing positions

A list of removed positions is read from the front, each position counted in what is left by then.
-/

/-- The list without the entries at some positions. -/
def eraseAll {β : Type} (xs : List β) (positions : List Nat) : List β :=
  positions.foldl List.eraseIdx xs

/-- Positions that all lie behind the first entry leave it in place. -/
theorem eraseAll_cons {β : Type} (x : β) (positions : List Nat) : ∀ xs : List β,
    eraseAll (x :: xs) (positions.map (1 + ·)) = x :: eraseAll xs positions := by
  induction positions with
  | nil => intro xs; rfl
  | cons i is ih =>
    intro xs
    show eraseAll ((x :: xs).eraseIdx (1 + i)) (is.map (1 + ·)) = x :: eraseAll (xs.eraseIdx i) is
    rw [Nat.add_comm 1 i, List.eraseIdx_cons_succ]
    exact ih (xs.eraseIdx i)

theorem eraseAll_append {β : Type} (xs : List β) (is js : List Nat) :
    eraseAll xs (is ++ js) = eraseAll (eraseAll xs is) js := List.foldl_append

theorem mem_of_mem_eraseAll {β : Type} {x : β} (positions : List Nat) : ∀ {xs : List β},
    x ∈ eraseAll xs positions → x ∈ xs := by
  induction positions with
  | nil => intro xs h; exact h
  | cons i is ih => intro xs h; exact List.mem_of_mem_eraseIdx (ih h)

/-! ## Staircases -/

/-- The lengths of the lists are `m`, `m + 1`, `m + 2` and so on. -/
def Staircase : Nat → List (List α) → Prop
  | _, [] => True
  | m, r :: rs => r.length = m ∧ Staircase (m + 1) rs

namespace Staircase

theorem length_getElem {rs : List (List α)} : ∀ {m : Nat}, Staircase m rs →
    ∀ (j : Nat) (hj : j < rs.length), rs[j].length = m + j := by
  induction rs with
  | nil => intro m _ j hj; exact absurd hj (Nat.not_lt_zero j)
  | cons r rs ih =>
    intro m h j hj
    cases j with
    | zero => exact h.1
    | succ j =>
      rw [List.getElem_cons_succ, ih h.2 j (Nat.lt_of_succ_lt_succ hj)]
      omega

theorem append {rs ss : List (List α)} : ∀ {m : Nat}, Staircase m rs →
    Staircase (m + rs.length) ss → Staircase m (rs ++ ss) := by
  induction rs with
  | nil => intro m _ hs; exact hs
  | cons r rs ih =>
    intro m hr hs
    refine ⟨hr.1, ih hr.2 ?_⟩
    rw [show m + 1 + rs.length = m + (r :: rs).length by rw [List.length_cons]; omega]
    exact hs

theorem take {rs : List (List α)} : ∀ {m : Nat}, Staircase m rs → ∀ k, Staircase m (rs.take k) := by
  induction rs with
  | nil => intro m h k; rw [List.take_nil]; exact h
  | cons r rs ih =>
    intro m h k
    cases k with
    | zero => exact True.intro
    | succ k => exact ⟨h.1, ih h.2 k⟩

theorem drop {rs : List (List α)} : ∀ {m : Nat}, Staircase m rs →
    ∀ k, Staircase (m + k) (rs.drop k) := by
  induction rs with
  | nil => intro m _ k; rw [List.drop_nil]; exact True.intro
  | cons r rs ih =>
    intro m h k
    cases k with
    | zero => exact h
    | succ k =>
      rw [List.drop_succ_cons, show m + (k + 1) = m + 1 + k by omega]
      exact ih h.2 k

/-- Steps that are all shortened by `d` are the steps of a lower staircase. -/
theorem map {g : List α → List α} {d : Nat} (hg : ∀ r, (g r).length = r.length - d)
    {rs : List (List α)} : ∀ {m : Nat}, Staircase (m + d) rs → Staircase m (rs.map g) := by
  induction rs with
  | nil => intro m _; exact True.intro
  | cons r rs ih =>
    intro m h
    refine ⟨?_, ih ?_⟩
    · rw [hg, h.1]
      omega
    · rw [show m + 1 + d = m + d + 1 by omega]
      exact h.2

/-- Steps that are all lengthened by `d` are the steps of a higher staircase. -/
theorem zipWith_append {d : Nat} {ps rs : List (List α)} : ∀ {m : Nat},
    (∀ p ∈ ps, p.length = d) → Staircase m rs →
      Staircase (m + d) (List.zipWith (· ++ ·) ps rs) := by
  induction ps generalizing rs with
  | nil => intro m _ _; exact True.intro
  | cons p ps ih =>
    intro m hp h
    cases rs with
    | nil => exact True.intro
    | cons r rs =>
      refine ⟨?_, ?_⟩
      · rw [List.length_append, hp p List.mem_cons_self, h.1]
        omega
      · rw [show m + d + 1 = m + 1 + d by omega]
        exact ih (fun q hq => hp q (List.mem_cons_of_mem _ hq)) h.2

/-- A new first entry for every list makes a staircase one higher. -/
theorem zipWith_cons {xs : List α} {rs : List (List α)} : ∀ {m : Nat}, Staircase m rs →
    Staircase (m + 1) (List.zipWith (· :: ·) xs rs) := by
  induction xs generalizing rs with
  | nil => intro m _; exact True.intro
  | cons x xs ih =>
    intro m h
    cases rs with
    | nil => exact True.intro
    | cons r rs => exact ⟨congrArg (· + 1) h.1, ih h.2⟩

/-- The last list is the longest one. -/
theorem max_length {rs : List (List α)} : ∀ {m : Nat}, Staircase (m + 1) rs →
    max m ((rs.map List.length).foldr max 0) = m + rs.length := by
  induction rs with
  | nil => intro m _; exact Nat.max_zero m
  | cons r rs ih =>
    intro m h
    have hlater := ih h.2
    rw [List.map_cons, List.foldr_cons, h.1, hlater, List.length_cons]
    omega

end Staircase

namespace Factorization

/-- As many coefficient lists and norms as basis vectors, and coefficient lists of growing length.
-/
structure Shaped (f : Factorization α) : Prop where
  upper : f.upper.length = f.columns
  norms : f.norms.length = f.columns
  stairs : Staircase 1 f.upper

theorem empty_shaped (rows : Nat) : (empty rows : Factorization α).Shaped :=
  ⟨rfl, rfl, True.intro⟩

/-- No column has more coefficients than there are basis vectors. -/
theorem Shaped.length_le {f : Factorization α} (hf : f.Shaped) :
    ∀ r ∈ f.upper, r.length ≤ f.columns := by
  intro r hr
  obtain ⟨j, hj, rfl⟩ := List.mem_iff_getElem.1 hr
  rw [hf.stairs.length_getElem j hj, ← hf.upper]
  omega

theorem Shaped.shape_eq {f : Factorization α} (hf : f.Shaped) :
    f.shape = (f.columns, f.columns) := by
  have hrows := hf.stairs.max_length
  rw [Nat.zero_max, Nat.zero_add] at hrows
  rw [shape, hrows, hf.upper]

variable [Scalar α]

/-- Column `j` has no more than `j + 1` coefficients. -/
theorem Shaped.entry_eq_zero {f : Factorization α} (hf : f.Shaped) {i j : Nat} (hij : j < i) :
    f.entry i j = 0 := by
  by_cases hj : j < f.upper.length
  · rw [entry, List.getElem?_eq_getElem hj, Option.getD_some, List.getElem?_eq_none]
    · rfl
    · rw [hf.stairs.length_getElem j hj]
      omega
  · rw [entry, List.getElem?_eq_none (Nat.not_lt.1 hj)]
    rfl

theorem checked_eq {f f' : Factorization α} (h : f.checked = .ok f') : f' = f := by
  unfold checked at h
  split at h
  next => exact (Except.ok.inj h).symm
  next => cases h

/-! ## Inserting -/

theorem length_orthogonalize (qs : List (Vec α)) : ∀ u : Vec α,
    (orthogonalize qs u).1.length = qs.length := by
  induction qs with
  | nil => intro u; rfl
  | cons q qs ih => intro u; exact congrArg (· + 1) (ih _)

theorem length_split (qs : List (Vec α)) (v : Vec α) : (split qs v).1.length = qs.length := by
  show (List.zipWith _ (orthogonalize qs v).1 (orthogonalize qs _).1).length = qs.length
  rw [List.length_zipWith, length_orthogonalize, length_orthogonalize, Nat.min_self]

/-- The factorization with a column appended. -/
def grown (f : Factorization α) (v : Vec α) : Factorization α :=
  { f with
    basis := f.basis ++ [(split f.basis v).2.map (· / (split f.basis v).2.norm)]
    upper := f.upper ++ [(split f.basis v).1 ++ [(split f.basis v).2.norm]]
    norms := f.norms ++ [v.norm] }

theorem Shaped.grown {f : Factorization α} (hf : f.Shaped) (v : Vec α) : (f.grown v).Shaped where
  upper := by
    rw [columns, Factorization.grown, List.length_append, List.length_append, hf.upper]
    rfl
  norms := by
    rw [columns, Factorization.grown, List.length_append, List.length_append, hf.norms]
    rfl
  stairs := by
    refine hf.stairs.append ⟨?_, True.intro⟩
    rw [List.length_append, length_split, hf.upper, Nat.add_comm]
    rfl

theorem insert_shaped {f f' : Factorization α} {v : Vec α} (hf : f.Shaped)
    (h : f.insert v = .ok (some f')) :
    f'.Shaped ∧ f'.rows = f.rows ∧ f'.columns = f.columns + 1 := by
  unfold insert at h
  split at h
  next => cases h
  next =>
    dsimp only at h
    split at h
    next => cases h
    next =>
      obtain ⟨g, hg, h⟩ := bind_ok h
      obtain rfl := Option.some.inj (Except.ok.inj h)
      rw [checked_eq hg]
      exact ⟨hf.grown v, rfl, List.length_append⟩

theorem insertAll_shaped {vs : List (Vec α)} : ∀ {f f' : Factorization α} {i : Nat}
    {refused : List Nat}, f.Shaped → f.insertAll i vs = .ok (f', refused) →
      f'.Shaped ∧ f'.rows = f.rows ∧ f'.columns + refused.length = f.columns + vs.length := by
  induction vs with
  | nil =>
    intro f f' i refused hf h
    obtain ⟨rfl, rfl⟩ := Prod.mk.inj (Except.ok.inj h)
    exact ⟨hf, rfl, rfl⟩
  | cons v vs ih =>
    intro f f' i refused hf h
    obtain ⟨o, ho, h⟩ := bind_ok h
    cases o with
    | some g =>
      obtain ⟨hg, hr, hc⟩ := insert_shaped hf ho
      obtain ⟨hf', hr', hc'⟩ := ih hg h
      rw [List.length_cons]
      exact ⟨hf', hr'.trans hr, by omega⟩
    | none =>
      obtain ⟨⟨g, later⟩, hg, h⟩ := bind_ok h
      obtain ⟨rfl, rfl⟩ := Prod.mk.inj (Except.ok.inj h)
      obtain ⟨hf', hr', hc'⟩ := ih hf hg
      rw [List.length_cons, List.length_cons]
      exact ⟨hf', hr', by omega⟩

theorem rebuild_shaped {f f' : Factorization α} {vs : List (Vec α)} {refused : List Nat}
    (h : f.rebuild vs = .ok (f', refused)) :
    f'.Shaped ∧ f'.rows = f.rows ∧ f'.columns + refused.length = vs.length := by
  obtain ⟨hs, hr, hc⟩ := insertAll_shaped (empty_shaped f.rows) h
  exact ⟨hs, hr, hc.trans (Nat.zero_add _)⟩

/-! ## Deleting -/

/-- One step of the sweep. -/
theorem retriangulate_cons (q p : Vec α) (ps : List (Vec α)) (a b : α) (rest : List α)
    (columns : List (List α)) {c s : α} (hr : rotation a b = (c, s)) :
    retriangulate q (p :: ps) ((a :: b :: rest) :: columns) =
      (Vec.add (q.scale c) (p.scale s) ::
          (retriangulate (Vec.sub (p.scale c) (q.scale s)) ps
            (columns.map fun r => (turn c s r).2)).1,
        [c * a + s * b] :: (columns.map fun r => (turn c s r).1).zipWith (· :: ·)
          (retriangulate (Vec.sub (p.scale c) (q.scale s)) ps
            (columns.map fun r => (turn c s r).2)).2) := by
  rw [retriangulate, hr]

theorem length_turn (c s : α) {r : List α} (h : 2 ≤ r.length) :
    (turn c s r).2.length = r.length - 1 := by
  match r, h with
  | x :: y :: rest, _ => rfl

/-- A rotation takes a staircase of height at least two down by one. -/
theorem staircase_turn (c s : α) {rs : List (List α)} : ∀ {m : Nat}, 1 ≤ m →
    Staircase (m + 1) rs → Staircase m (rs.map fun r => (turn c s r).2) := by
  induction rs with
  | nil => intro m _ _; exact True.intro
  | cons r rs ih =>
    intro m hm h
    refine ⟨?_, ih (Nat.le_succ_of_le hm) h.2⟩
    have hr := h.1
    rw [length_turn c s (by omega)]
    omega

/-- The sweep settles as many columns as there are basis vectors beyond the first. -/
theorem retriangulate_shape : ∀ (qs : List (Vec α)) (q : Vec α) (columns : List (List α)),
    columns.length = qs.length → Staircase 2 columns →
      (retriangulate q qs columns).1.length = qs.length ∧
      (retriangulate q qs columns).2.length = qs.length ∧
      Staircase 1 (retriangulate q qs columns).2 := by
  intro qs
  induction qs with
  | nil =>
    intro q columns _ _
    exact ⟨rfl, rfl, True.intro⟩
  | cons p ps ih =>
    intro q columns hl hs
    match columns, hl, hs with
    | [a, b] :: columns, hl, hs =>
      have hl' : columns.length = ps.length := Nat.succ.inj hl
      obtain ⟨c, s, hr⟩ : ∃ c s, rotation a b = (c, s) := ⟨_, _, rfl⟩
      rw [retriangulate_cons q p ps a b [] columns hr]
      have hcl : (columns.map fun r => (turn c s r).2).length = ps.length := by
        rw [List.length_map, hl']
      obtain ⟨hb, hu, hst⟩ := ih (Vec.sub (p.scale c) (q.scale s)) _ hcl
        (staircase_turn c s (by omega) hs.2)
      refine ⟨congrArg (· + 1) hb, ?_, rfl, hst.zipWith_cons⟩
      rw [List.length_cons, List.length_zipWith, List.length_map, hu, hl', Nat.min_self]
      rfl

omit [Scalar α] in
/-- What is left of the later columns below the deleted one is a staircase of height two. -/
theorem Shaped.later {f : Factorization α} (hf : f.Shaped) (i : Nat) :
    Staircase 2 ((f.upper.drop (i + 1)).map (List.drop i)) := by
  refine Staircase.map (d := i) (fun r => List.length_drop) ?_
  rw [show 2 + i = 1 + (i + 1) by omega]
  exact hf.stairs.drop (i + 1)

/-- The sweep of a deletion, over the basis behind the deleted column. -/
def sweep (f : Factorization α) (i : Nat) (q : Vec α) (qs : List (Vec α)) :
    List (Vec α) × List (List α) :=
  retriangulate q qs ((f.upper.drop (i + 1)).map (List.drop i))

/-- The factorization without column `i`: the columns before it are kept, and the others are
replaced by what the sweep makes of them. -/
def shrunk (f : Factorization α) (i : Nat) (q : Vec α) (qs : List (Vec α)) : Factorization α :=
  { f with
    basis := f.basis.take i ++ (f.sweep i q qs).1
    upper := f.upper.take i ++
      List.zipWith (· ++ ·) ((f.upper.drop (i + 1)).map (List.take i)) (f.sweep i q qs).2
    norms := f.norms.eraseIdx i }

theorem delete_eq {f f' : Factorization α} {i : Nat} (h : f.delete i = .ok f') :
    ∃ q qs, f.basis.drop i = q :: qs ∧ f' = f.shrunk i q qs := by
  unfold delete at h
  split at h
  next => cases h
  next q qs hd => exact ⟨q, qs, hd, checked_eq h⟩

section
variable {f f' : Factorization α} {i : Nat} {q : Vec α} {qs : List (Vec α)}

section
omit [Scalar α]

theorem columns_eq_add (hd : f.basis.drop i = q :: qs) : f.columns = i + (qs.length + 1) := by
  have hrest := congrArg List.length hd
  rw [List.length_drop, List.length_cons] at hrest
  show f.basis.length = _
  omega

theorem Shaped.lt_length_later (hf : f.Shaped) : ∀ r ∈ f.upper.drop (i + 1), i + 1 < r.length := by
  intro r hr
  obtain ⟨j, hj, rfl⟩ := List.mem_iff_getElem.1 hr
  rw [(hf.stairs.drop (i + 1)).length_getElem j hj]
  omega

theorem Shaped.length_later (hf : f.Shaped) (hd : f.basis.drop i = q :: qs) :
    ((f.upper.drop (i + 1)).map (List.drop i)).length = qs.length := by
  rw [List.length_map, List.length_drop, hf.upper, columns_eq_add hd]
  omega

end

theorem Shaped.columns_shrunk (hf : f.Shaped) (hd : f.basis.drop i = q :: qs) :
    (f.shrunk i q qs).columns = i + qs.length := by
  have hsweep : (f.sweep i q qs).1.length = qs.length :=
    (retriangulate_shape qs q _ (hf.length_later hd) (hf.later i)).1
  have hcolumns : f.basis.length = i + (qs.length + 1) := columns_eq_add hd
  rw [columns, shrunk, List.length_append, List.length_take, hsweep, hcolumns]
  omega

theorem Shaped.shrunk (hf : f.Shaped) (hd : f.basis.drop i = q :: qs) :
    (f.shrunk i q qs).Shaped := by
  obtain ⟨-, hsettled, hstairs⟩ := retriangulate_shape qs q _ (hf.length_later hd) (hf.later i)
  have hcolumns := columns_eq_add hd
  have hfront : (f.upper.take i).length = i := by
    rw [List.length_take, hf.upper]
    omega
  refine ⟨?_, ?_, (hf.stairs.take i).append ?_⟩
  · rw [hf.columns_shrunk hd, Factorization.shrunk, List.length_append, hfront,
      List.length_zipWith, sweep, hsettled, List.length_map, List.length_drop, hf.upper]
    omega
  · rw [hf.columns_shrunk hd, Factorization.shrunk, List.length_eraseIdx, hf.norms,
      if_pos (by omega)]
    omega
  · rw [hfront]
    refine Staircase.zipWith_append (fun r hr => ?_) hstairs
    -- every later column is longer than the deleted one
    obtain ⟨r', hr', rfl⟩ := List.mem_map.1 hr
    have hlong := hf.lt_length_later r' hr'
    rw [List.length_take]
    omega

theorem delete_shaped (hf : f.Shaped) (h : f.delete i = .ok f') :
    f'.Shaped ∧ f'.rows = f.rows ∧ f'.columns + 1 = f.columns ∧ i < f.columns := by
  obtain ⟨q, qs, hd, rfl⟩ := delete_eq h
  have hcolumns := columns_eq_add hd
  have hshorter := hf.columns_shrunk hd
  exact ⟨hf.shrunk hd, rfl, by omega, by omega⟩

end

end Factorization

/-! ## Filtering -/

open Factorization

variable [Scalar α]

theorem Filter.removeRedundant_shaped (filter : Filter α) : ∀ (fuel : Nat)
    {f f' : Factorization α} {removed : List Nat}, f.Shaped →
      filter.removeRedundant fuel f = .ok (f', removed) →
      f'.Shaped ∧ f'.rows = f.rows ∧ f'.columns + removed.length = f.columns := by
  intro fuel
  induction fuel with
  | zero =>
    intro f f' removed hf h
    obtain ⟨rfl, rfl⟩ := Prod.mk.inj (Except.ok.inj h)
    exact ⟨hf, rfl, rfl⟩
  | succ fuel ih =>
    intro f f' removed hf h
    unfold removeRedundant at h
    split at h
    next =>
      obtain ⟨rfl, rfl⟩ := Prod.mk.inj (Except.ok.inj h)
      exact ⟨hf, rfl, rfl⟩
    next i _ =>
      obtain ⟨g, hg, h⟩ := bind_ok h
      obtain ⟨⟨g', later⟩, hg', h⟩ := bind_ok h
      obtain ⟨rfl, rfl⟩ := Prod.mk.inj (Except.ok.inj h)
      obtain ⟨hgs, hgr, hgc, -⟩ := delete_shaped hf hg
      obtain ⟨hs, hr, hc⟩ := ih hgs hg'
      rw [List.length_cons]
      exact ⟨hs, hr.trans hgr, by omega⟩

theorem Filter.apply_shaped {filter : Filter α} {f f' : Factorization α} {removed : List Nat}
    (hf : f.Shaped) (h : filter.apply f = .ok (f', removed)) :
    f'.Shaped ∧ f'.rows = f.rows ∧ f'.columns + removed.length = f.columns :=
  filter.removeRedundant_shaped f.columns hf h

end Cosimulation.Acceleration

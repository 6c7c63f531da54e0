import Cosimulation.Proofs.Factorization.Refactorization

/-!
# Sequences of edits

A factorization is edited by insertions, deletions, filters and rebuilds (`Edit`). A `Ledger` keeps
the columns that were accepted and not removed beside the factorization; `Ledger.run` does one edit
after the other.

`run_agrees` is the statement about all sequences of edits in exact arithmetic: the edits go
through, and what they leave is the orthogonal factorization of the columns in the ledger, the same
that refactorizing these columns yields (`Agrees`). One edit keeps `Factorizes`
(`perform_factorizes`), and `Agrees` is what `Factorizes` says in terms of entries
(`Factorizes.agrees`).
-/

namespace Cosimulation.Acceleration

namespace Factorization

/-- A change of a factorization. -/
inductive Edit (α : Type) where
  | insert (column : Vec α)
  | delete (position : Nat)
  | filter (filter : Filter α)
  | rebuild (columns : List (Vec α))

/-- A factorization, and the columns it was given that are still in it, in order. -/
structure Ledger (α : Type) where
  factorization : Factorization α
  columns : List (Vec α)

section
variable {α : Type}

/-- The edits that a factorization of columns of length `n` allows: columns of that length, and
deletions of columns that are there. -/
def Edit.Fits (n : Nat) (l : Ledger α) : Edit α → Prop
  | .insert v => v.length = n
  | .delete i => i < l.factorization.columns
  | .filter _ => True
  | .rebuild vs => ∀ v ∈ vs, v.length = n

/-- No columns of `n` rows. -/
def Ledger.empty (n : Nat) : Ledger α := ⟨Factorization.empty n, []⟩

variable [Scalar α]

/-- Does an edit, and notes which columns it lets in and which it takes out. -/
def Ledger.perform (l : Ledger α) : Edit α → Except (Violation α) (Ledger α)
  | .insert v => do
    match ← l.factorization.insert v with
    | some f => .ok ⟨f, l.columns ++ [v]⟩
    | none => .ok l
  | .delete i => do
    let f ← l.factorization.delete i
    .ok ⟨f, l.columns.eraseIdx i⟩
  | .filter filter => do
    let (f, removed) ← filter.apply l.factorization
    .ok ⟨f, eraseAll l.columns removed⟩
  | .rebuild vs => do
    let (f, refused) ← l.factorization.rebuild vs
    .ok ⟨f, eraseAll vs refused.reverse⟩

/-- Does several edits, one after the other. -/
def Ledger.run (l : Ledger α) : List (Edit α) → Except (Violation α) (Ledger α)
  | [] => .ok l
  | e :: es => do
    let l' ← l.perform e
    l'.run es

/-- Every edit fits what the edits before it leave. -/
def Ledger.Admits (n : Nat) (l : Ledger α) : List (Edit α) → Prop
  | [] => True
  | e :: es => e.Fits n l ∧ ∀ l', l.perform e = .ok l' → l'.Admits n es

end

/-! ## What the edits leave -/

section
variable {n : Nat}

/-- The orthogonal factorization of columns of length `n`, as refactorizing the columns yields it.
-/
structure Agrees (n : Nat) (f : Factorization ℝ) (cs : List (Vec ℝ)) : Prop where
  rows : f.rows = n
  columns : f.columns = cs.length
  basis_length : ∀ q ∈ f.basis, q.length = n
  column_length : ∀ c ∈ cs, c.length = n
  orthonormal : Orthonormal ℝ (f.points n).get
  triangular : ∀ i j, j < i → f.entry i j = 0
  diagonal : ∀ i, i < cs.length → 0 < f.diagonal i
  product : ∀ (j : Nat) (hj : j < cs.length),
    ∑ i : Fin (f.points n).length, f.entry i j • (f.points n).get i = euclid n cs[j]
  norms : ∀ (i : Nat) (hi : i < cs.length), f.columnNorm i = ‖euclid n cs[i]‖
  rebuild : f.rebuild cs = .ok (f, [])
  /-- An insertion has a result, and it is a refusal for the vectors near the span. -/
  insert : ∀ v : Vec ℝ, v.length = n → (∃ result, f.insert v = .ok result) ∧
    (f.insert v = .ok none ↔
      Metric.infDist (euclid n v) (Submodule.span ℝ {c | c ∈ cs.map (euclid n)}) ≤
        1e-13 * ‖euclid n v‖)
  /-- A refusal changes nothing. -/
  refused : ∀ v : Vec ℝ, f.insert v = .ok none → Ledger.perform ⟨f, cs⟩ (.insert v) = .ok ⟨f, cs⟩

variable {f : Factorization ℝ} {cs : List (Vec ℝ)}

theorem Factorizes.agrees (hf : Factorizes n f cs) : Agrees n f cs := by
  have hlen : f.upper.length = cs.length := hf.shaped.upper.trans hf.columns_eq
  have hentry (i j : Nat) (hj : j < f.upper.length) : f.entry i j = f.upper[j][i]?.getD 0 := by
    rw [entry, List.getElem?_eq_getElem hj]
    rfl
  refine ⟨hf.rows, hf.columns_eq, hf.basis_length, hf.column_length, hf.orthonormal.orthonormal,
    fun i j hij => hf.shaped.entry_eq_zero hij, ?_, ?_, ?_, hf.rebuild_eq, ?_, fun v hv => ?_⟩
  · intro i hi
    have hl := hf.shaped.stairs.length_getElem i (hlen.symm ▸ hi)
    have h := hf.last_pos _ (List.getElem_mem (hlen.symm ▸ hi))
    rw [List.getLastD_eq_getLast?, List.getLast?_eq_getElem?, hl, Nat.add_sub_cancel_left] at h
    rwa [diagonal, hentry i i (hlen.symm ▸ hi)]
  · intro j hj
    have h := (hf.expresses.get (hlen.symm ▸ hj) (by rwa [List.length_map])).combination
    rw [combine_eq_sum, List.get_eq_getElem, List.get_eq_getElem, List.getElem_map] at h
    rw [← h]
    exact Finset.sum_congr rfl fun i _ => by rw [hentry i j (hlen.symm ▸ hj)]
  · intro i hi
    rw [columnNorm, hf.norms, List.getElem?_map, List.getElem?_eq_getElem hi]
    exact norm_eq_norm (hf.column_length _ (List.getElem_mem hi))
  · intro v hv
    refine ⟨?_, hf.insert_eq_none_iff_infDist hv⟩
    rcases hf.insert_cases hv with h | ⟨f', h, -⟩
    · exact ⟨_, h⟩
    · exact ⟨_, h⟩
  · rw [Ledger.perform, hv]
    rfl

/-- An edit that fits goes through and leaves a factorization of the columns in the ledger. -/
theorem perform_factorizes {l : Ledger ℝ} {e : Edit ℝ}
    (h : Factorizes n l.factorization l.columns) (he : e.Fits n l) :
    ∃ l', l.perform e = .ok l' ∧ Factorizes n l'.factorization l'.columns := by
  cases e with
  | insert v =>
    rcases h.insert_cases he with hr | ⟨f', hi, hg⟩
    · refine ⟨l, ?_, h⟩
      rw [Ledger.perform, hr]
      rfl
    · refine ⟨⟨f', l.columns ++ [v]⟩, ?_, hg⟩
      rw [Ledger.perform, hi]
      rfl
  | delete i =>
    obtain ⟨f', hd, hf'⟩ := h.delete he
    refine ⟨⟨f', l.columns.eraseIdx i⟩, ?_, hf'⟩
    rw [Ledger.perform, hd]
    rfl
  | filter filter =>
    obtain ⟨f', removed, ha, hf'⟩ := filter.apply_factorizes h
    refine ⟨⟨f', eraseAll l.columns removed⟩, ?_, hf'⟩
    rw [Ledger.perform, ha]
    rfl
  | rebuild vs =>
    obtain ⟨f', refused, hr, hf'⟩ := h.rebuild he
    refine ⟨⟨f', eraseAll vs refused.reverse⟩, ?_, hf'⟩
    rw [Ledger.perform, hr]
    rfl

theorem run_factorizes : ∀ (es : List (Edit ℝ)) {l : Ledger ℝ},
    Factorizes n l.factorization l.columns → l.Admits n es →
      ∃ l', l.run es = .ok l' ∧ Factorizes n l'.factorization l'.columns := by
  intro es
  induction es with
  | nil => intro l h _; exact ⟨l, rfl, h⟩
  | cons e es ih =>
    intro l h ha
    obtain ⟨l₁, h₁, hf₁⟩ := perform_factorizes h ha.1
    obtain ⟨l', h', hf'⟩ := ih hf₁ (ha.2 l₁ h₁)
    refine ⟨l', ?_, hf'⟩
    rw [Ledger.run, h₁]
    exact h'

/-- Whatever the edits, the factorization is the one that refactorizing the remaining columns
yields. -/
theorem run_agrees (n : Nat) (es : List (Edit ℝ)) (h : (Ledger.empty n).Admits n es) :
    ∃ l, (Ledger.empty n).run es = .ok l ∧ Agrees n l.factorization l.columns := by
  obtain ⟨l, hl, hf⟩ := run_factorizes es (empty_factorizes n) h
  exact ⟨l, hl, hf.agrees⟩

/-- A column that comes, goes, and comes again with a multiple of itself. -/
theorem run_agrees_returning_column :
    (Ledger.empty 1).Admits 1
        [.insert [1], .delete 0, .rebuild [[1], [2]], .filter ⟨.qr2, (1e-2 : ℝ)⟩] ∧
      ∃ l, (Ledger.empty 1).run
          [.insert [1], .delete 0, .rebuild [[1], [2]], .filter ⟨.qr2, (1e-2 : ℝ)⟩] = .ok l ∧
        Agrees 1 l.factorization l.columns := by
  have hadmits : (Ledger.empty 1).Admits 1
      [.insert [1], .delete 0, .rebuild [[1], [2]], .filter ⟨.qr2, (1e-2 : ℝ)⟩] := by
    refine ⟨rfl, fun l₁ h₁ =>
      ⟨?_, fun l₂ _ => ⟨?_, fun l₃ _ => ⟨True.intro, fun _ _ => True.intro⟩⟩⟩⟩
    · have hne : euclid 1 [1] ≠ 0 := by
        intro h
        have h0 := congrArg (fun x : EuclideanSpace ℝ (Fin 1) => x 0) h
        exact one_ne_zero h0
      have hl : (Ledger.empty 1).perform (.insert [1]) =
          .ok ⟨(empty 1 : Factorization ℝ).grown [1], [[1]]⟩ := by
        show (empty 1 : Factorization ℝ).insert [1] >>= _ = _
        rw [insert_empty (n := 1) rfl hne]
        rfl
      -- so there is a column to delete
      obtain rfl := Except.ok.inj (hl.symm.trans h₁)
      exact Nat.succ_pos _
    · exact List.forall_mem_cons.2 ⟨rfl, List.forall_mem_cons.2 ⟨rfl, fun _ h =>
        absurd h List.not_mem_nil⟩⟩
  exact ⟨hadmits, run_agrees 1 _ hadmits⟩

end

end Factorization

end Cosimulation.Acceleration

import Cosimulation.Acceleration.Windows

/-!
# Sizes of windows

What becomes of the sizes when a column is added or removed and when a window ends. There is always
a current window. Adding a column changes the current window only (`dropLast_grow`); removing one
takes it from its own window, which goes if it was a finished one and that was its last
(`holding_shrink`); and a window that ends without a column is not kept (`holding_finish`). So the
finished windows hold a column each, if they did before.
-/

namespace Cosimulation.Acceleration

namespace Windows

/-- At most `T` windows are finished, and each of these holds a column. -/
structure Within (T : Nat) (w : Windows) : Prop where
  length : w.sizes.length ≤ T + 1
  holding : ∀ n ∈ w.sizes.dropLast, 0 < n

/-! ## Adding a column -/

theorem grow_ne_nil (ns : List Nat) : grow ns ≠ [] := by
  match ns with
  | [] => exact List.cons_ne_nil _ _
  | [_] => exact List.cons_ne_nil _ _
  | _ :: _ :: _ => exact List.cons_ne_nil _ _

theorem length_grow_le : ∀ ns : List Nat, (grow ns).length ≤ max 1 ns.length
  | [] => Nat.le_refl 1
  | [_] => Nat.le_refl 1
  | _ :: m :: ns => by
    have ih := length_grow_le (m :: ns)
    simp only [grow, List.length_cons] at ih ⊢
    omega

theorem dropLast_grow : ∀ ns : List Nat, (grow ns).dropLast = ns.dropLast
  | [] => rfl
  | [_] => rfl
  | n :: m :: ns => by
    show (n :: grow (m :: ns)).dropLast = n :: (m :: ns).dropLast
    rw [List.dropLast_cons_of_ne_nil (grow_ne_nil _), dropLast_grow]

/-! ## Removing a column -/

theorem shrink_ne_nil {ns : List Nat} (h : ns ≠ []) (i : Nat) : shrink ns i ≠ [] := by
  cases ns with
  | nil => exact absurd rfl h
  | cons n ns =>
    rw [shrink]
    split
    next =>
      split
      next hone => exact hone.2
      next => exact List.cons_ne_nil _ _
    next => exact List.cons_ne_nil _ _

theorem length_shrink_le : ∀ (ns : List Nat) (i : Nat), (shrink ns i).length ≤ ns.length := by
  intro ns
  induction ns with
  | nil => exact fun _ => Nat.le_refl 0
  | cons n ns ih =>
    intro i
    rw [shrink]
    split
    next =>
      split
      next => exact Nat.le_succ ns.length
      next => exact Nat.le_refl _
    next => exact Nat.succ_le_succ (ih _)

theorem dropLast_shrink_singleton (n i : Nat) : (shrink [n] i).dropLast = [] := by
  rw [shrink]
  split
  next =>
    rw [if_neg fun hn => hn.2 rfl]
    rfl
  next => rfl

/-- A finished window that loses its last column goes. -/
theorem holding_shrink : ∀ {ns : List Nat}, (∀ n ∈ ns.dropLast, 0 < n) → ∀ (i : Nat),
    ∀ n ∈ (shrink ns i).dropLast, 0 < n := by
  intro ns
  induction ns with
  | nil => exact fun h _ => h
  | cons n ns ih =>
    intro h i
    by_cases hns : ns = []
    · subst hns
      rw [dropLast_shrink_singleton]
      exact fun _ hm => absurd hm List.not_mem_nil
    rw [List.dropLast_cons_of_ne_nil hns] at h
    obtain ⟨hn, hrest⟩ := List.forall_mem_cons.1 h
    rw [shrink]
    split
    next =>
      split
      next => exact hrest
      next hmore =>
        have hone : n ≠ 1 := fun h1 => hmore ⟨h1, hns⟩
        rw [List.dropLast_cons_of_ne_nil hns]
        exact List.forall_mem_cons.2 ⟨by omega, hrest⟩
    next =>
      rw [List.dropLast_cons_of_ne_nil (shrink_ne_nil hns _)]
      exact List.forall_mem_cons.2 ⟨hn, ih hrest _⟩

/-- Finished windows without columns have none to lose. -/
theorem dropLast_shrink : ∀ {ns : List Nat}, (∀ n ∈ ns.dropLast, n = 0) → ∀ (i : Nat),
    (shrink ns i).dropLast = ns.dropLast := by
  intro ns
  induction ns with
  | nil => exact fun _ _ => rfl
  | cons n ns ih =>
    intro h i
    by_cases hns : ns = []
    · subst hns
      exact dropLast_shrink_singleton n i
    rw [List.dropLast_cons_of_ne_nil hns] at h ⊢
    obtain ⟨rfl, hrest⟩ := List.forall_mem_cons.1 h
    rw [shrink, if_neg (Nat.not_lt_zero i), List.dropLast_cons_of_ne_nil (shrink_ne_nil hns _),
      ih hrest]

/-! ## The end of a window -/

/-- A window that ends without a column is not kept. -/
theorem holding_finish {w : Windows} (h : ∀ n ∈ w.sizes.dropLast, 0 < n) :
    ∀ n ∈ w.finish.sizes, 0 < n := by
  unfold Windows.finish
  split
  next => exact h
  next hlast =>
    intro n hn
    rcases List.eq_nil_or_concat w.sizes with hnil | ⟨front, x, hx⟩
    · rw [hnil] at hn
      exact absurd hn List.not_mem_nil
    · rw [hx, List.concat_eq_append] at hn hlast h
      rw [List.dropLast_concat] at h
      rcases List.mem_append.1 hn with hn | hn
      · exact h n hn
      · rw [List.mem_singleton] at hn
        rw [List.getLast?_concat] at hlast
        exact Nat.pos_of_ne_zero fun h0 => hlast (by rw [← hn, h0])

end Windows

end Cosimulation.Acceleration

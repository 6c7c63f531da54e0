import Mathlib.Data.List.Permutation

/-!
# Three in any order

What is said of three things and stays true when the first two are swapped, and when all three are
rotated, does not depend on their order (`eq_of_perm`).
-/

namespace Cosimulation

variable {α : Type} {a b c : α}

theorem perm_swap (a b c : α) : [b, a, c].Perm [a, b, c] := .swap a b [c]

theorem perm_rotate (a b c : α) : [b, c, a].Perm [a, b, c] :=
  (List.perm_append_comm : ([b, c] ++ [a]).Perm _)

theorem cases_of_perm {u v w : α} (h : [u, v, w].Perm [a, b, c]) :
    (u = a ∧ v = b ∧ w = c) ∨ (u = b ∧ v = a ∧ w = c) ∨ (u = c ∧ v = b ∧ w = a) ∨
      (u = b ∧ v = c ∧ w = a) ∨ (u = c ∧ v = a ∧ w = b) ∨ (u = a ∧ v = c ∧ w = b) := by
  have hall : [a, b, c].permutations
      = [[a, b, c], [b, a, c], [c, b, a], [b, c, a], [c, a, b], [a, c, b]] := by
    simp [List.permutations]
  have hmem : [u, v, w] ∈ [a, b, c].permutations := List.mem_permutations.mpr h
  rw [hall] at hmem
  simpa using hmem

/-- What neither a swap of the first two nor a rotation of all three changes depends on the three in
any order. -/
theorem eq_of_perm {β : Type} {f : α → α → α → β}
    (hswap : ∀ a b c, f b a c = f a b c) (hrotate : ∀ a b c, f b c a = f a b c)
    {u v w : α} (h : [u, v, w].Perm [a, b, c]) : f u v w = f a b c := by
  obtain ⟨rfl, rfl, rfl⟩ | ⟨rfl, rfl, rfl⟩ | ⟨rfl, rfl, rfl⟩ | ⟨rfl, rfl, rfl⟩ | ⟨rfl, rfl, rfl⟩
    | ⟨rfl, rfl, rfl⟩ := cases_of_perm h
  · rfl
  · exact hswap _ _ _
  · exact (hswap _ _ _).trans (hrotate _ _ _)
  · exact hrotate _ _ _
  · exact (hrotate _ _ _).symm
  · exact (hrotate _ _ _).trans (hswap _ _ _)

end Cosimulation

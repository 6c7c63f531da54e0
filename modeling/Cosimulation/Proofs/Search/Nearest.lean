import Cosimulation.Proofs.Search.Ties

/-!
# What a search finds

On real scalars, a search finds the `k` nearest shapes of a tree, however the tree is visited: as
many as there are up to `k`, ranked by distance and index, and none that it leaves out is nearer
than one it finds (`IsNearest`, `Tree.nearest_isNearest`). This is what any search finds by squared
distance, read for the distances themselves (`Finds.isNearest`).
-/

namespace Cosimulation.Search

/-- A hit is ranked before another one: it is nearer, or as near and has the smaller index. -/
def Hit.Before (g h : Hit ℝ) : Prop :=
  g.distance < h.distance ∨ g.distance = h.distance ∧ g.index < h.index

/-- The hits are the `k` nearest shapes by a squared distance, in their ranking. -/
structure IsNearest {σ : Type} (entries : List (Nat × σ)) (d : σ → ℝ) (k : Nat)
    (hits : List (Hit ℝ)) : Prop where
  length : hits.length = min k entries.length
  measured : ∀ h ∈ hits, ∃ s, (h.index, s) ∈ entries ∧ h.distance = √(d s)
  ranked : hits.Pairwise Hit.Before
  complete : ∀ i s, (i, s) ∈ entries → (∃ h ∈ hits, h.index = i) ∨ ∀ h ∈ hits, h.distance ≤ √(d s)

theorem Hit.notAfter_iff {g h : Hit ℝ} : Hit.notAfter g h = true ↔
    g.distance < h.distance ∨ g.distance = h.distance ∧ g.index ≤ h.index := by
  rw [notAfter_eq, rankThen_isLE_iff, rank_real, compare_lt_iff_lt, compare_eq_iff_eq]

variable {σ : Type} {d : σ → ℝ}

/-- On real scalars, what is nearer in squared distance is nearer. -/
theorem Finds.isNearest {entries : List (Nat × σ)} {k : Nat} {hits : List (Hit ℝ)}
    (h : Finds (Search.measured entries d) k hits) : IsNearest entries d k hits where
  length := by rw [h.length, Search.measured, List.length_map]
  measured x hx := by
    obtain ⟨_, hs, rfl⟩ := h.measured x hx
    obtain ⟨⟨i, s⟩, hentry, rfl⟩ := List.mem_map.1 hs
    exact ⟨s, hentry, rfl⟩
  ranked := by
    have hdistinct := List.pairwise_map.1 (List.nodup_iff_pairwise_ne.1 h.distinct)
    refine (h.ranked.and hdistinct).imp ?_
    rintro a b ⟨hab, hne⟩
    exact (Hit.notAfter_iff.1 hab).imp_right (And.imp_right fun hle => lt_of_le_of_ne hle hne)
  complete i s hs := by
    refine or_iff_not_imp_left.2 fun hmissed x hx => ?_
    obtain ⟨s', hs', rfl⟩ := h.measured x hx
    have hle := h.nearest s' hs' (i, d s) (List.mem_map.2 ⟨(i, s), hs, rfl⟩)
      (List.mem_map_of_mem hx) (mt List.mem_map.1 hmissed)
    exact Real.sqrt_le_sqrt (rank_ne_gt_iff.1 hle)

/-- A search finds the nearest shapes of a tree whose shapes have different indices. -/
theorem Tree.nearest_isNearest [SearchOrder ℝ] [LawfulSearchOrder ℝ] {t : Tree σ}
    (hids : (t.entries.map Prod.fst).Nodup) (d : σ → ℝ) (k : Nat) :
    IsNearest t.entries d k (t.nearest d k) := by
  rw [← map_fst_measured t.entries d] at hids
  exact (nearest_finds hids).isNearest

end Cosimulation.Search

import Cosimulation.Proofs.Search.Fresh

/-!
# Equally near shapes

A search cuts off the visit of a tree after the first `k` shapes and ranks what is kept
(`nearest_finds`). The cut comes first, so an index counts only among the shapes that are kept:
which of several equally near shapes these are, the visit decides.

If the cut does not divide equal squared distances, what is found is the same in every admissible
visit (`nearest_eq_settledHits`). If it does, a divided shape is found by the visit that goes to it
first among equally near ones and missed by the visit that goes to it last, so no answer holds for
both (`nearest_settled_iff`).

To find the first `k` shapes by distance and index takes more where roots are rounded. Distances may
be equal though their squares are not, and the cut must not divide equal distances either
(`nearest_eq_take`). Where distances compare as their squares do, the two conditions are the same
(`nearest_eq_take_iff`).
-/

namespace Cosimulation.Search

theorem map_fst_measured {α σ : Type} (entries : List (Nat × σ)) (d : σ → α) :
    (measured entries d).map Prod.fst = entries.map Prod.fst := by
  rw [measured, List.map_map]
  rfl

variable {α β σ : Type} [Scalar α] {t : Tree σ} {d : σ → α} {k : Nat}

/-- The hit that a search makes of a shape with its squared distance. -/
def Hit.of (s : Nat × α) : Hit α := ⟨s.1, Scalar.sqrt s.2⟩

/-- The hits are `k` of some shapes, ranked, and none that is left out is nearer. -/
structure Finds (shapes : List (Nat × α)) (k : Nat) (hits : List (Hit α)) : Prop where
  length : hits.length = min k shapes.length
  distinct : (hits.map Hit.index).Nodup
  measured : ∀ h ∈ hits, ∃ s ∈ shapes, h = .of s
  ranked : hits.Pairwise fun g h => Hit.notAfter g h = true
  nearest : ∀ s ∈ shapes, ∀ s' ∈ shapes, s.1 ∈ hits.map Hit.index → s'.1 ∉ hits.map Hit.index →
    Scalar.rank s.2 s'.2 ≠ .gt

namespace Finds

variable {shapes : List (Nat × α)} {hits hits' : List (Hit α)}

/-- A hit is known by its index if the shapes have different indices. -/
theorem mem_of_index (h : Finds shapes k hits) (h' : Finds shapes k hits')
    (hids : (shapes.map Prod.fst).Nodup) {x : Hit α} (hx : x ∈ hits)
    (hindex : x.index ∈ hits'.map Hit.index) : x ∈ hits' := by
  obtain ⟨y, hy, heq⟩ := List.mem_map.1 hindex
  obtain ⟨s, hs, rfl⟩ := h.measured x hx
  obtain ⟨s', hs', rfl⟩ := h'.measured y hy
  obtain rfl := List.inj_on_of_nodup_map hids hs' hs heq
  exact hy

/-- Shapes of different indices are found as the same hits if they have the same indices. -/
theorem eq_of_indices [Std.TransCmp (Scalar.rank : α → α → Ordering)] (h : Finds shapes k hits)
    (h' : Finds shapes k hits') (hids : (shapes.map Prod.fst).Nodup)
    (hindices : hits.map Hit.index = hits'.map Hit.index) : hits = hits' := by
  have hperm : hits.Perm hits' := by
    refine (List.perm_ext_iff_of_nodup h.distinct.of_map h'.distinct.of_map).2 fun x =>
      ⟨fun hx => ?_, fun hx => ?_⟩
    · exact h.mem_of_index h' hids hx (hindices ▸ List.mem_map_of_mem hx)
    · exact h'.mem_of_index h hids hx (hindices ▸ List.mem_map_of_mem hx)
  exact Hit.eq_of_sorted hperm h.distinct h.ranked h'.ranked

end Finds

/-- The roots of squared distances are in the order of these. -/
def RootsAscend (shapes : List (Nat × α)) : Prop := ∀ s ∈ shapes, ∀ s' ∈ shapes,
  Scalar.rank s.2 s'.2 ≠ .gt → Scalar.rank (Scalar.sqrt s.2) (Scalar.sqrt s'.2) ≠ .gt

/-- The roots of squared distances compare as these do. -/
def RootsCompare (shapes : List (Nat × α)) : Prop := ∀ s ∈ shapes, ∀ s' ∈ shapes,
  Scalar.rank (Scalar.sqrt s.2) (Scalar.sqrt s'.2) = Scalar.rank s.2 s'.2

/-- The shapes that no more than `k` are up to, ranked. -/
def settledHits (shapes : List (Nat × α)) (k : Nat) : List (Hit α) :=
  Hit.ranked ((shapes.filter fun s => upTo Prod.snd shapes s.2 ≤ k).map .of)

section
variable [SearchOrder α]

/-- The shapes of a tree as they are visited, each with its squared distance. -/
abbrev Tree.visited (t : Tree σ) (d : σ → α) : List (Nat × α) := SearchOrder.visit t.entries d

theorem nearest_eq_ranked (t : Tree σ) (d : σ → α) (k : Nat) :
    t.nearest d k = Hit.ranked (((t.visited d).take k).map .of) := by
  rw [Tree.nearest, firstRanked, Tree.visit, List.map_take]
  rfl

theorem mem_nearest_iff {h : Hit α} :
    h ∈ t.nearest d k ↔ ∃ s ∈ (t.visited d).take k, .of s = h := by
  rw [nearest_eq_ranked, (Hit.ranked_perm _).mem_iff, List.mem_map]

theorem mem_indices_iff {i : Nat} :
    i ∈ (t.nearest d k).map Hit.index ↔ ∃ s ∈ (t.visited d).take k, s.1 = i := by
  simp only [List.mem_map, mem_nearest_iff, exists_exists_and_eq_and]
  rfl

variable [LawfulSearchOrder α]

theorem visited_perm (t : Tree σ) (d : σ → α) : (t.visited d).Perm (measured t.entries d) :=
  LawfulSearchOrder.visit_perm t.entries d

theorem visited_ascending (t : Tree σ) (d : σ → α) : Ascending Prod.snd (t.visited d) :=
  LawfulSearchOrder.visit_ascending t.entries d

variable (hids : ((measured t.entries d).map Prod.fst).Nodup)
include hids

theorem visited_nodup : ((t.visited d).map Prod.fst).Nodup :=
  ((visited_perm t d).map Prod.fst).nodup_iff.2 hids

/-- A shape that is visited after the first `k` is not found. -/
theorem not_mem_indices {s : Nat × α} (hs : s ∈ (t.visited d).drop k) :
    s.1 ∉ (t.nearest d k).map Hit.index := by
  rw [mem_indices_iff]
  rintro ⟨s', hs', heq⟩
  obtain rfl := List.inj_on_of_nodup_map (visited_nodup hids) (List.mem_of_mem_take hs')
    (List.mem_of_mem_drop hs) heq
  exact List.disjoint_take_drop (visited_nodup hids).of_map (Nat.le_refl k) hs' hs

theorem indices_nodup : ((t.nearest d k).map Hit.index).Nodup := by
  rw [nearest_eq_ranked, ((Hit.ranked_perm _).map _).nodup_iff, List.map_map]
  exact ((List.take_sublist k _).map _).nodup (visited_nodup hids)

variable [Std.TransCmp (Scalar.rank : α → α → Ordering)]

/-- Whatever the visit, a search finds as many shapes as it should, and none that it leaves out is
nearer. -/
theorem nearest_finds : Finds (measured t.entries d) k (t.nearest d k) where
  length := by
    rw [length_nearest, measured, List.length_map]
  distinct := indices_nodup hids
  measured h hh := by
    obtain ⟨s, hs, rfl⟩ := mem_nearest_iff.1 hh
    exact ⟨s, (visited_perm t d).mem_iff.1 (List.mem_of_mem_take hs), rfl⟩
  ranked := by
    rw [nearest_eq_ranked]
    exact Hit.ranked_sorted _
  nearest s hs s' hs' hfound hmissed := by
    rw [← (visited_perm t d).mem_iff] at hs hs'
    have hbefore : s ∈ (t.visited d).take k :=
      (mem_take_or_drop hs k).resolve_right fun hlater => not_mem_indices hids hlater hfound
    have hbehind : s' ∈ (t.visited d).drop k :=
      (mem_take_or_drop hs' k).resolve_left fun hearlier =>
        hmissed (mem_indices_iff.2 ⟨s', hearlier, rfl⟩)
    have hle := rel_of_cut (visited_ascending t d) hbefore hbehind
    exact hle

/-- If the cut does not divide equal squared distances, the visit does not matter. -/
theorem nearest_eq_settledHits (hu : Undivided Prod.snd (measured t.entries d) k) :
    t.nearest d k = settledHits (measured t.entries d) k := by
  have hperm := visited_perm t d
  have hfound : ((t.visited d).take k).Perm
      ((measured t.entries d).filter fun s => upTo Prod.snd (measured t.entries d) s.2 ≤ k) := by
    refine (List.perm_ext_iff_of_nodup ((List.take_sublist k _).nodup (visited_nodup hids).of_map)
      (hids.of_map.filter _)).2 fun s => ?_
    rw [mem_take_iff (visited_ascending t d) (hu.perm hperm.symm), List.mem_filter,
      hperm.mem_iff, upTo_perm hperm, decide_eq_true_eq]
  rw [nearest_eq_ranked]
  refine Hit.ranked_eq_of_perm (hfound.map _) ?_
  rw [List.map_map]
  exact ((List.take_sublist k _).map _).nodup (visited_nodup hids)

/-- What is found are the first shapes by distance and index, if roots keep the order of what they
are taken of and the cut does not divide equal distances. -/
theorem nearest_eq_take (hroots : RootsAscend (measured t.entries d))
    (hu : Undivided (fun s => Scalar.sqrt s.2) (measured t.entries d) k) :
    t.nearest d k = (Hit.ranked ((measured t.entries d).map .of)).take k := by
  have hperm := (visited_perm t d).map (Hit.of (α := α))
  have hmem {s : Nat × α} (hs : s ∈ t.visited d) : s ∈ measured t.entries d :=
    (visited_perm t d).mem_iff.1 hs
  have hascending : Ascending Hit.distance ((t.visited d).map .of) :=
    List.pairwise_map.2 ((visited_ascending t d).imp_of_mem fun hs hs' =>
      hroots _ (hmem hs) _ (hmem hs'))
  have hindices : (((t.visited d).map Hit.of).map Hit.index).Nodup := by
    rw [List.map_map]
    exact visited_nodup hids
  calc t.nearest d k = Hit.ranked (((t.visited d).map .of).take k) := by
        rw [nearest_eq_ranked, List.map_take]
    _ = (Hit.ranked ((t.visited d).map .of)).take k := by
        refine Hit.ranked_take hascending hindices (Undivided.perm ?_ hperm.symm)
        exact undivided_map.2 hu
    _ = (Hit.ranked ((measured t.entries d).map .of)).take k := by
        rw [Hit.ranked_eq_of_perm hperm hindices]

end

/-! ## Visits that differ -/

section
variable {f : β → α} {key : β → Nat} {xs : List β} {x : β}

/-- Sorted ahead of those equally distant, an entry is kept as soon as fewer than `k` are nearer. -/
theorem mem_take_of_ahead (hsorted : xs.Pairwise fun x y => (rankThen f key x y).isLE = true)
    (hx : x ∈ xs) (hahead : ∀ y ∈ xs, key y ≤ key x → y = x) (hnearer : nearer f xs (f x) < k) :
    x ∈ xs.take k := by
  by_contra hcut
  have hbehind : x ∈ xs.drop k := (mem_take_or_drop hx k).resolve_left hcut
  have hall : nearer f (xs.take k) (f x) = k := by
    rw [nearer, List.countP_eq_length.2, length_take_of_mem_drop hbehind]
    intro y hy
    have hbefore := rel_of_cut hsorted hy hbehind
    rcases rankThen_isLE_iff.1 hbefore with hlt | ⟨-, hle⟩
    · simpa using hlt
    · exact absurd (hahead y (List.mem_of_mem_take hy) hle ▸ hy) hcut
  have hle : nearer f (xs.take k) (f x) ≤ nearer f xs (f x) := (List.take_sublist k xs).countP_le
  omega

/-- Sorted behind those equally distant, an entry is cut off as soon as more than `k` are up to
it. -/
theorem not_mem_take_of_behind [Std.TransCmp (Scalar.rank : α → α → Ordering)]
    (hsorted : xs.Pairwise fun x y => (rankThen f key x y).isLE = true) (hnodup : xs.Nodup)
    (hbehind : ∀ y ∈ xs, key x ≤ key y → y = x) (hupTo : k < upTo f xs (f x)) :
    x ∉ xs.take k := by
  intro hx
  have hnone : upTo f (xs.drop k) (f x) = 0 := by
    refine List.countP_eq_zero.2 fun y hy => ?_
    have hbefore := rel_of_cut hsorted hx hy
    rcases rankThen_isLE_iff.1 hbefore with hlt | ⟨-, hle⟩
    · rw [rank_swap (f x), hlt]
      decide
    · obtain rfl := hbehind y (List.mem_of_mem_drop hy) hle
      exact absurd hy (List.disjoint_take_drop hnodup (Nat.le_refl k) hx)
  have hsum : upTo f xs (f x) = upTo f (xs.take k) (f x) + upTo f (xs.drop k) (f x) := by
    rw [upTo, upTo, upTo, ← List.countP_append, List.take_append_drop]
  have hle : upTo f (xs.take k) (f x) ≤ k :=
    List.countP_le_length.trans (List.length_take_le k xs)
  omega

end

section
variable [Std.TransCmp (Scalar.rank : α → α → Ordering)]
  (hids : ((measured t.entries d).map Prod.fst).Nodup)
include hids

/-- The visit that goes to a shape first among equally near ones finds it as soon as fewer than `k`
are nearer. -/
theorem found_first {s : Nat × α} (hs : s ∈ measured t.entries d)
    (hnearer : nearer Prod.snd (measured t.entries d) s.2 < k) :
    let _ : SearchOrder α := .byKey fun i => if i = s.1 then 0 else 1
    s.1 ∈ (t.nearest d k).map Hit.index := by
  intro order
  have := SearchOrder.lawful_byKey (α := α) fun i => if i = s.1 then 0 else 1
  have hperm := visited_perm t d
  rw [mem_indices_iff]
  refine ⟨s, mem_take_of_ahead (pairwise_sorted _ _ _) (hperm.mem_iff.2 hs)
    (fun y hy hle => ?_) ?_, rfl⟩
  · refine List.inj_on_of_nodup_map hids (hperm.mem_iff.1 hy) hs ?_
    by_contra hne
    simp [hne] at hle
  · rwa [nearer_perm hperm]

/-- The visit that goes to a shape last among equally near ones misses it as soon as more than `k`
are up to it. -/
theorem missed_last {s : Nat × α} (hs : s ∈ measured t.entries d)
    (hupTo : k < upTo Prod.snd (measured t.entries d) s.2) :
    let _ : SearchOrder α := .byKey fun i => if i = s.1 then 1 else 0
    s.1 ∉ (t.nearest d k).map Hit.index := by
  intro order
  have := SearchOrder.lawful_byKey (α := α) fun i => if i = s.1 then 1 else 0
  have hperm := visited_perm t d
  have hcut : s ∉ (t.visited d).take k := by
    refine not_mem_take_of_behind (pairwise_sorted _ _ _) (visited_nodup hids).of_map
      (fun y hy hle => ?_) ?_
    · refine List.inj_on_of_nodup_map hids (hperm.mem_iff.1 hy) hs ?_
      by_contra hne
      simp [hne] at hle
    · rwa [upTo_perm hperm]
  exact not_mem_indices hids ((mem_take_or_drop (hperm.mem_iff.2 hs) k).resolve_left hcut)

/-- What is found is the same in every admissible visit exactly if the cut does not divide equal
squared distances. -/
theorem nearest_settled_iff :
    (∃ hits, ∀ [SearchOrder α] [LawfulSearchOrder α], t.nearest d k = hits) ↔
      Undivided Prod.snd (measured t.entries d) k := by
  refine ⟨fun ⟨hits, hall⟩ => ?_, fun hu => ⟨_, nearest_eq_settledHits hids hu⟩⟩
  intro s hs hnearer
  by_contra hupTo
  have hfound : s.1 ∈ hits.map Hit.index :=
    @hall (.byKey _) (SearchOrder.lawful_byKey _) ▸ found_first hids hs hnearer
  have hmissed : s.1 ∉ hits.map Hit.index :=
    @hall (.byKey _) (SearchOrder.lawful_byKey _) ▸ missed_last hids hs (not_le.1 hupTo)
  exact hmissed hfound

/-- Where roots compare as their squares do, the first shapes by distance and index are found in
every admissible visit exactly if the cut does not divide equal distances. -/
theorem nearest_eq_take_iff (hroots : RootsCompare (measured t.entries d)) :
    (∀ [SearchOrder α] [LawfulSearchOrder α],
      t.nearest d k = (Hit.ranked ((measured t.entries d).map .of)).take k) ↔
      Undivided Prod.snd (measured t.entries d) k := by
  refine ⟨fun hall => (nearest_settled_iff hids).1 ⟨_, hall⟩, fun hu => ?_⟩
  refine nearest_eq_take hids (fun s hs s' hs' hle => ?_) ((undivided_congr hroots).2 hu)
  rwa [hroots s hs s' hs']

end

end Cosimulation.Search

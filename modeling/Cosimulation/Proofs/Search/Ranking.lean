import Cosimulation.Proofs.Scalar.Comparison
import Cosimulation.Search.Tree

/-!
# The first few of a ranking

Entries that come from near to far are cut off after the first `k`. Which of them are kept is
settled by their distances alone if the cut does not go between equally distant ones (`Undivided`):
it keeps those that no more than `k` are up to (`mem_take_iff`), whichever way equally distant ones
came (`take_perm`).

What is kept is ranked by distance and, among equally distant hits, by index. The ranking of hits of
different shapes does not depend on the order they come in (`Hit.ranked_eq_of_perm`), and to rank
them after the cut gives the first of all of them, ranked, provided the cut does not divide equal
distances (`Hit.ranked_take`).
-/

namespace Cosimulation.Search

open Scalar

variable {α β γ : Type} [Scalar α] {f : β → α} {g : γ → α} {xs ys : List β} {x y : β} {k : Nat}

/-! ## Cutting off a visit -/

theorem mem_take_or_drop (hx : x ∈ xs) (k : Nat) : x ∈ xs.take k ∨ x ∈ xs.drop k := by
  rwa [← List.mem_append, List.take_append_drop]

/-- Whatever each entry has to those that follow, those before a cut have to those behind it. -/
theorem rel_of_cut {R : β → β → Prop} (h : xs.Pairwise R) (hx : x ∈ xs.take k)
    (hy : y ∈ xs.drop k) : R x y := by
  rw [← List.take_append_drop k xs] at h
  exact (List.pairwise_append.1 h).2.2 x hx y hy

/-- There are `k` entries before a cut that has one behind it. -/
theorem length_take_of_mem_drop (hx : x ∈ xs.drop k) : (xs.take k).length = k := by
  have hpos := List.length_pos_of_mem hx
  rw [List.length_drop] at hpos
  rw [List.length_take]
  omega

/-- The entries come from near to far. -/
def Ascending (f : β → α) (xs : List β) : Prop := xs.Pairwise fun x y => rank (f x) (f y) ≠ .gt

/-- How many entries are nearer. -/
def nearer (f : β → α) (xs : List β) (a : α) : Nat := xs.countP fun x => rank (f x) a == .lt

/-- How many entries are nearer or equally distant. -/
def upTo (f : β → α) (xs : List β) (a : α) : Nat := xs.countP fun x => rank (f x) a != .gt

/-- The cut after the first `k` entries does not go between equally distant ones: if one of them is
kept, all are. -/
def Undivided (f : β → α) (xs : List β) (k : Nat) : Prop :=
  ∀ x ∈ xs, nearer f xs (f x) < k → upTo f xs (f x) ≤ k

instance : Decidable (Undivided f xs k) :=
  inferInstanceAs (Decidable (∀ x ∈ xs, nearer f xs (f x) < k → upTo f xs (f x) ≤ k))

theorem nearer_perm (h : xs.Perm ys) (a : α) : nearer f xs a = nearer f ys a := h.countP_eq _

theorem upTo_perm (h : xs.Perm ys) (a : α) : upTo f xs a = upTo f ys a := h.countP_eq _

theorem Undivided.perm (hu : Undivided f xs k) (h : xs.Perm ys) : Undivided f ys k := by
  intro x hx
  rw [← nearer_perm h, ← upTo_perm h]
  exact hu x (h.mem_iff.2 hx)

/-- Distances that compare alike are divided alike. -/
theorem undivided_congr {f' : β → α}
    (h : ∀ x ∈ xs, ∀ y ∈ xs, rank (f x) (f y) = rank (f' x) (f' y)) :
    Undivided f xs k ↔ Undivided f' xs k := by
  refine forall₂_congr fun x hx => ?_
  have hnearer : nearer f xs (f x) = nearer f' xs (f' x) :=
    List.countP_congr fun y hy => by rw [h y hy x hx]
  have hupTo : upTo f xs (f x) = upTo f' xs (f' x) :=
    List.countP_congr fun y hy => by rw [h y hy x hx]
  rw [hnearer, hupTo]

theorem undivided_map {e : β → γ} : Undivided g (xs.map e) k ↔ Undivided (g ∘ e) xs k := by
  simp only [Undivided, nearer, upTo, List.forall_mem_map, List.countP_map]
  rfl

section
variable [Std.TransCmp (rank : α → α → Ordering)]

theorem rank_self (a : α) : rank a a = .eq := Std.ReflCmp.compare_self

theorem rank_swap (a b : α) : rank b a = (rank a b).swap := Std.OrientedCmp.eq_swap

/-- Fewer than `k` entries are nearer than one before the cut. -/
theorem nearer_lt (h : Ascending f xs) (hx : x ∈ xs.take k) : nearer f xs (f x) < k := by
  have hbehind : nearer f (xs.drop k) (f x) = 0 :=
    List.countP_eq_zero.2 fun y hy => by
      rw [rank_swap (f x)]
      have hle := rel_of_cut h hx hy
      revert hle
      cases rank (f x) (f y) <;> simp
  have hbefore : nearer f (xs.take k) (f x) < (xs.take k).length := by
    refine List.countP_lt_length_iff.2 ⟨x, hx, ?_⟩
    rw [rank_self]
    rfl
  calc nearer f xs (f x) = nearer f (xs.take k ++ xs.drop k) (f x) := by
        rw [List.take_append_drop]
    _ = nearer f (xs.take k) (f x) + nearer f (xs.drop k) (f x) := List.countP_append
    _ < (xs.take k).length := by rwa [hbehind]
    _ ≤ k := List.length_take_le k xs

/-- More than `k` entries are up to one behind the cut. -/
theorem lt_upTo (h : Ascending f xs) (hx : x ∈ xs.drop k) : k < upTo f xs (f x) := by
  have hbefore : upTo f (xs.take k) (f x) = (xs.take k).length :=
    List.countP_eq_length.2 fun y hy => by simpa using rel_of_cut h hy hx
  have hbehind : 0 < upTo f (xs.drop k) (f x) := by
    refine List.countP_pos_iff.2 ⟨x, hx, ?_⟩
    rw [rank_self]
    rfl
  calc k = upTo f (xs.take k) (f x) := by rw [hbefore, length_take_of_mem_drop hx]
    _ < upTo f (xs.take k) (f x) + upTo f (xs.drop k) (f x) := Nat.lt_add_of_pos_right hbehind
    _ = upTo f (xs.take k ++ xs.drop k) (f x) := List.countP_append.symm
    _ = upTo f xs (f x) := by rw [List.take_append_drop]

/-- A cut that does not divide equal distances keeps the entries that no more than `k` are up to. -/
theorem mem_take_iff (h : Ascending f xs) (hu : Undivided f xs k) :
    x ∈ xs.take k ↔ x ∈ xs ∧ upTo f xs (f x) ≤ k := by
  refine ⟨fun hx => ⟨List.mem_of_mem_take hx, hu x (List.mem_of_mem_take hx) (nearer_lt h hx)⟩,
    fun ⟨hx, hle⟩ => ?_⟩
  exact (mem_take_or_drop hx k).resolve_right fun hlater => (lt_upTo h hlater).not_ge hle

/-- A cut that does not divide equal distances keeps the same entries, whichever way equally distant
ones come. -/
theorem take_perm (hx : Ascending f xs) (hy : Ascending f ys) (hperm : xs.Perm ys)
    (hnodup : xs.Nodup) (hu : Undivided f xs k) : (xs.take k).Perm (ys.take k) := by
  refine (List.perm_ext_iff_of_nodup ((List.take_sublist k xs).nodup hnodup)
    ((List.take_sublist k ys).nodup (hperm.nodup_iff.1 hnodup))).2 fun z => ?_
  rw [mem_take_iff hx hu, mem_take_iff hy (hu.perm hperm), hperm.mem_iff, upTo_perm hperm]

end

/-! ## Ranking what is kept -/

/-- By distance, and among equally distant entries by a key. -/
def rankThen (f : β → α) (key : β → Nat) : β → β → Ordering :=
  compareLex (fun x y => rank (f x) (f y)) (compareOn key)

theorem rankThen_isLE_iff {key : β → Nat} : (rankThen f key x y).isLE = true ↔
    rank (f x) (f y) = .lt ∨ rank (f x) (f y) = .eq ∧ key x ≤ key y := by
  simp only [rankThen, compareLex, compareOn]
  cases rank (f x) (f y) <;> simp [Nat.isLE_compare]

theorem ascending_of_pairwise {key : β → Nat}
    (h : xs.Pairwise fun x y => (rankThen f key x y).isLE = true) : Ascending f xs := by
  refine h.imp fun {x y} hle => ?_
  rcases rankThen_isLE_iff.1 hle with hlt | ⟨heq, -⟩
  · exact ne_of_eq_of_ne hlt nofun
  · exact ne_of_eq_of_ne heq nofun

namespace Hit

variable {hits hits' : List (Hit α)}

/-- A hit is ranked by its distance, then by its index. -/
theorem notAfter_eq (g h : Hit α) :
    notAfter g h = (rankThen distance index g h).isLE := by
  rw [Bool.eq_iff_iff, rankThen_isLE_iff, notAfter]
  cases rank g.distance h.distance <;> simp

theorem ascending_of_sorted (h : hits.Pairwise fun g h => notAfter g h = true) :
    Ascending distance hits := by
  simp only [notAfter_eq] at h
  exact ascending_of_pairwise h

theorem ranked_perm (hits : List (Hit α)) : (ranked hits).Perm hits :=
  List.mergeSort_perm hits notAfter

end Hit

section
variable [Std.TransCmp (rank : α → α → Ordering)]

instance : Std.TransCmp fun x y : β => rank (f x) (f y) where
  eq_swap := rank_swap _ _
  isLE_trans := Std.TransCmp.isLE_trans

instance {key : β → Nat} : Std.TransCmp (rankThen f key) :=
  inferInstanceAs (Std.TransCmp (compareLex _ _))

/-- Entries can be sorted by distance and key. -/
theorem pairwise_sorted (f : β → α) (key : β → Nat) (xs : List β) :
    (xs.mergeSort fun x y => (rankThen f key x y).isLE).Pairwise fun x y =>
      (rankThen f key x y).isLE = true := by
  refine List.pairwise_mergeSort (fun _ _ _ => Std.TransCmp.isLE_trans) (fun x y => ?_) xs
  have hswap : rankThen f key y x = (rankThen f key x y).swap := Std.OrientedCmp.eq_swap
  rw [hswap]
  cases rankThen f key x y <;> rfl

namespace SearchOrder

/-- The visit from near to far that goes by a key among equally near shapes. -/
@[reducible]
def byKey (key : Nat → Nat) : SearchOrder α where
  visit entries distance2 := (measured entries distance2).mergeSort fun x y =>
    (rankThen Prod.snd (key ∘ Prod.fst) x y).isLE

/-- Whatever the key, the visit is admissible. -/
theorem lawful_byKey (key : Nat → Nat) : @LawfulSearchOrder α _ (.byKey key) := by
  let _ : SearchOrder α := .byKey key
  exact ⟨fun _ _ => List.mergeSort_perm _ _, fun entries d =>
    ascending_of_pairwise (pairwise_sorted _ _ (measured entries d))⟩

theorem lawful_byIndex : @LawfulSearchOrder α _ .byIndex := by
  have hkey : (byIndex : SearchOrder α) = byKey fun _ => 0 := by
    refine congrArg SearchOrder.mk ?_
    funext σ entries d
    congr 1
    funext x y
    rw [Bool.eq_iff_iff, rankThen_isLE_iff]
    cases rank x.2 y.2 <;> simp
  rw [hkey]
  exact lawful_byKey _

end SearchOrder

namespace Hit

variable {hits hits' : List (Hit α)}

theorem ranked_sorted (hits : List (Hit α)) :
    (ranked hits).Pairwise fun g h => notAfter g h = true := by
  simp only [ranked, funext₂ notAfter_eq]
  exact pairwise_sorted distance index hits

/-- Hits of different shapes have one ranking. -/
theorem eq_of_sorted (hperm : hits.Perm hits') (hindices : (hits.map index).Nodup)
    (h : hits.Pairwise fun g h => notAfter g h = true)
    (h' : hits'.Pairwise fun g h => notAfter g h = true) : hits = hits' := by
  refine hperm.eq_of_pairwise (fun a b ha hb hab hba => ?_) h h'
  refine List.inj_on_of_nodup_map hindices ha (hperm.mem_iff.2 hb) ?_
  rw [notAfter_eq, rankThen_isLE_iff] at hab hba
  rw [rank_swap a.distance] at hba
  rcases hab with hlt | ⟨heq, hle⟩
  · simp [hlt] at hba
  · simp only [heq, Ordering.swap, reduceCtorEq, false_or, true_and] at hba
    exact Nat.le_antisymm hle hba

/-- Equally distant hits are ranked by index. -/
theorem ranked_level {a : α} (hdistance : ∀ h ∈ hits, h.distance = a)
    (hindices : (hits.map index).Pairwise (· ≤ ·)) : ranked hits = hits := by
  refine List.mergeSort_of_pairwise ((List.pairwise_map.1 hindices).imp_of_mem ?_)
  intro g h hg hh hle
  rw [notAfter_eq, rankThen_isLE_iff, hdistance g hg, hdistance h hh]
  exact .inr ⟨rank_self a, hle⟩

theorem ranked_eq_of_perm (hperm : hits.Perm hits') (hindices : (hits.map index).Nodup) :
    ranked hits = ranked hits' := by
  have hall : (ranked hits).Perm (ranked hits') :=
    ((ranked_perm hits).trans hperm).trans (ranked_perm hits').symm
  exact eq_of_sorted hall (((ranked_perm hits).map index).nodup_iff.2 hindices)
    (ranked_sorted hits) (ranked_sorted hits')

/-- To cut first and to rank first is the same if the cut does not divide equal distances. -/
theorem ranked_take (h : Ascending distance hits) (hindices : (hits.map index).Nodup)
    (hu : Undivided distance hits k) : ranked (hits.take k) = (ranked hits).take k := by
  have hsorted := ranked_sorted hits
  have htake : (hits.take k).Perm ((ranked hits).take k) :=
    take_perm h (ascending_of_sorted hsorted) (ranked_perm hits).symm
      (List.Nodup.of_map index hindices) hu
  refine eq_of_sorted ((ranked_perm _).trans htake) ?_ (ranked_sorted _)
    (hsorted.sublist (List.take_sublist k _))
  rw [((ranked_perm _).map index).nodup_iff]
  exact ((List.take_sublist k hits).map index).nodup hindices

end Hit

end

instance : LawfulSearchOrder Double := SearchOrder.lawful_byIndex

end Cosimulation.Search

import Mathlib.Data.List.Nodup
import Mathlib.Data.List.Perm.Basic
import Cosimulation.Exchange.SharedVertices

/-!
# The layout of shared values

Both ends of a route work out on their own which values travel and in which order. They agree
because both list the shared global indices in ascending order (`sharedGlobals_comm`), and each end
finds its own vertices by them (`route?_eq`).

A vector of values is read here through the global indices of its vertices: `layOut` arranges
components by vertex, and every vector of the right length is such an arrangement
(`layOut_component`). In these terms the sender's selection (`gather_layOut`) and the receiver's
addition (`deposit_layOut`) do not mention positions any more, so that the two local orders of the
vertices drop out. No law of arithmetic is used.
-/

namespace Cosimulation.Exchange

/-! ## Shared global indices -/

theorem eraseDups_eq_self {gs : List Nat} (h : gs.Nodup) : gs.eraseDups = gs := by
  induction gs with
  | nil => rfl
  | cons g gs ih =>
    obtain ⟨hg, hgs⟩ := List.nodup_cons.1 h
    have hkeep : gs.filter (fun b => !b == g) = gs :=
      List.filter_eq_self.2 fun b hb => by simpa using ne_of_mem_of_not_mem hb hg
    rw [List.eraseDups_cons, hkeep, ih hgs]

variable {mine theirs : List Nat} {g : Nat}

theorem mem_sharedGlobals : g ∈ sharedGlobals mine theirs ↔ g ∈ mine ∧ g ∈ theirs := by
  simp [sharedGlobals, and_comm]

/-- Shared indices without repetition, in the order in which they travel. -/
theorem sharedGlobals_eq (h : theirs.Nodup) :
    sharedGlobals mine theirs = (theirs.filter fun g => mine.contains g).mergeSort (· ≤ ·) :=
  eraseDups_eq_self ((List.mergeSort_perm _ _).nodup_iff.2 (h.filter _))

theorem nodup_sharedGlobals (h : theirs.Nodup) : (sharedGlobals mine theirs).Nodup := by
  rw [sharedGlobals_eq h]
  exact (List.mergeSort_perm _ _).nodup_iff.2 (h.filter _)

/-- Both ends list the shared indices alike. -/
theorem sharedGlobals_comm (hm : mine.Nodup) (ht : theirs.Nodup) :
    sharedGlobals mine theirs = sharedGlobals theirs mine := by
  have hperm : (sharedGlobals mine theirs).Perm (sharedGlobals theirs mine) := by
    refine (List.perm_ext_iff_of_nodup (nodup_sharedGlobals ht) (nodup_sharedGlobals hm)).2
      fun g => ?_
    rw [mem_sharedGlobals, mem_sharedGlobals, and_comm]
  have hsorted {xs ys : List Nat} (h : ys.Nodup) : (sharedGlobals xs ys).Pairwise (· ≤ ·) := by
    rw [sharedGlobals_eq h]
    refine List.Pairwise.imp of_decide_eq_true (List.pairwise_mergeSort ?_ ?_ _)
    · intro a b c hab hbc
      simp at *
      omega
    · intro a b
      simp
      omega
  exact hperm.eq_of_pairwise (fun a b _ _ => Nat.le_antisymm) (hsorted ht) (hsorted hm)

/-! ## Routes -/

/-- A vertex is found at the place of its global index. -/
theorem lastPosition?_eq (h : mine.Nodup) (hg : g ∈ mine) :
    lastPosition? mine g = some (mine.idxOf g) := by
  obtain ⟨xs, ys, rfl⟩ := List.append_of_mem hg
  obtain ⟨_, hys, hdis⟩ := List.nodup_append.1 h
  have hxs : g ∉ xs := fun hx => hdis g hx g List.mem_cons_self rfl
  have hys : g ∉ ys := (List.nodup_cons.1 hys).1
  -- Only one entry has the index, so that the last one with it is the first.
  have hnone {zs : List Nat} (hz : g ∉ zs) (k : Nat) :
      (zs.zipIdx k).filter (fun e => e.1 == g) = [] := by
    refine List.filter_eq_nil_iff.2 fun e he => ?_
    have := ne_of_mem_of_not_mem (List.fst_mem_of_mem_zipIdx he) hz
    simpa using this
  rw [lastPosition?, List.zipIdx_append, List.filter_append, hnone hxs, List.zipIdx_cons,
    List.filter_cons_of_pos (by simp), hnone hys, List.idxOf_append_of_notMem hxs,
    List.idxOf_cons_self]
  simp

/-- The route to a remote process names the own vertices with shared indices; there is one if
anything is shared. -/
theorem route?_eq (h : mine.Nodup) (remote : Rank) : route? mine (remote, theirs) =
    if sharedGlobals mine theirs = [] then none
    else some ⟨remote, (sharedGlobals mine theirs).map mine.idxOf⟩ := by
  have hpositions : (sharedGlobals mine theirs).filterMap (lastPosition? mine) =
      (sharedGlobals mine theirs).map mine.idxOf := by
    rw [← List.filterMap_eq_map]
    exact List.filterMap_congr fun g hg => lastPosition?_eq h (mem_sharedGlobals.1 hg).1
  simp only [route?, hpositions, List.isEmpty_iff, List.map_eq_nil_iff]

/-! ## Values by global index -/

/-- The components of one vertex after those of the other. -/
def layOut (dimension : Nat) (f : Nat → Nat → Double) (globals : List Nat) : Vec Double :=
  globals.flatMap fun g => (List.range dimension).map (f g)

/-- A component of the vertex with a global index. -/
def component (dimension : Nat) (globals : List Nat) (values : Vec Double) (g k : Nat) : Double :=
  values.getD (globals.idxOf g * dimension + k) 0

variable {dimension : Nat} {f h : Nat → Nat → Double} {globals gs : List Nat}

theorem layOut_cons : layOut dimension f (g :: gs) =
    (List.range dimension).map (f g) ++ layOut dimension f gs := rfl

theorem layOut_append : layOut dimension f (globals ++ gs) =
    layOut dimension f globals ++ layOut dimension f gs := List.flatMap_append

@[simp]
theorem length_layOut : (layOut dimension f gs).length = gs.length * dimension := by
  induction gs with
  | nil => simp [layOut]
  | cons g gs ih =>
    rw [layOut_cons, List.length_append, ih, List.length_map, List.length_range, List.length_cons,
      Nat.succ_mul, Nat.add_comm]

theorem layOut_congr (hf : ∀ g ∈ gs, ∀ k, f g k = h g k) :
    layOut dimension f gs = layOut dimension h gs := by
  induction gs with
  | nil => rfl
  | cons g gs ih =>
    rw [layOut_cons, layOut_cons, ih fun x hx => hf x (List.mem_cons_of_mem g hx),
      funext (hf g List.mem_cons_self)]

/-- A vector of the right length is laid out by its components. -/
theorem layOut_component (hnodup : globals.Nodup) {values : Vec Double}
    (hlength : values.length = globals.length * dimension) :
    layOut dimension (component dimension globals values) globals = values := by
  induction globals generalizing values with
  | nil => exact (List.length_eq_zero_iff.1 (by simpa using hlength)).symm
  | cons g gs ih =>
    obtain ⟨hg, hgs⟩ := List.nodup_cons.1 hnodup
    rw [List.length_cons, Nat.succ_mul] at hlength
    have hfirst : (List.range dimension).map (component dimension (g :: gs) values g) =
        values.take dimension := by
      refine List.ext_getElem (by simp; omega) fun k hk _ => ?_
      rw [List.length_map, List.length_range] at hk
      have hk' : k < values.length := by omega
      simp [component, hk']
    have hrest : layOut dimension (component dimension (g :: gs) values) gs =
        values.drop dimension := by
      have hlength' : (values.drop dimension).length = gs.length * dimension := by
        rw [List.length_drop]
        omega
      rw [← ih hgs hlength']
      refine layOut_congr fun x hx k => ?_
      have hidx : (g :: gs).idxOf x = gs.idxOf x + 1 :=
        List.idxOf_cons_ne _ (ne_of_mem_of_not_mem hx hg).symm
      simp only [component, hidx, List.getD_eq_getElem?_getD, List.getElem?_drop]
      congr 2
      rw [Nat.succ_mul]
      omega
    rw [layOut_cons, hfirst, hrest, List.take_append_drop]

/-- The values of a vertex stand at its place. -/
theorem layOut_around (dimension : Nat) (f : Nat → Nat → Double) (hg : g ∈ globals) :
    ∃ xs ys, globals = xs ++ g :: ys ∧ g ∉ xs ∧
      globals.idxOf g * dimension = (layOut dimension f xs).length := by
  obtain ⟨xs, ys, rfl, hxs⟩ := List.eq_append_cons_of_mem hg
  refine ⟨xs, ys, rfl, hxs, ?_⟩
  rw [List.idxOf_append_of_notMem hxs, List.idxOf_cons_self, length_layOut, Nat.add_zero]

/-- What a sender selects for a route. -/
theorem gather_layOut (hgs : ∀ g ∈ gs, g ∈ globals) (remote : Rank) :
    Plan.gather ⟨remote, gs.map globals.idxOf⟩ (layOut dimension f globals) dimension =
      layOut dimension f gs := by
  rw [Plan.gather, List.flatMap_map]
  refine List.flatMap_congr fun g hg => ?_
  obtain ⟨xs, ys, hsplit, _, hplace⟩ := layOut_around dimension f (hgs g hg)
  rw [hplace, hsplit, layOut_append, List.drop_left, layOut_cons, List.take_left' (by simp)]

/-- Adding to the front of a vector leaves nothing of the rest. -/
theorem add_append_left {v rest w : Vec Double} (hl : v.length = w.length) :
    Vec.add (v ++ rest) w = Vec.add v w := by
  have hsplit : Vec.add (v ++ rest) (w ++ []) = Vec.add v w ++ Vec.add rest [] :=
    List.zipWith_append hl
  rwa [List.append_nil, Vec.add.eq_def rest, List.zipWith_nil_right, List.append_nil] at hsplit

/-- One vertex gets its share added. -/
theorem addFrom_layOut (hnodup : globals.Nodup) (hg : g ∈ globals) :
    Plan.addFrom (globals.idxOf g * dimension) ((List.range dimension).map (h g))
        (layOut dimension f globals) =
      layOut dimension (fun x k => if x = g then f x k + h x k else f x k) globals := by
  obtain ⟨xs, ys, hsplit, hxs, hplace⟩ := layOut_around dimension f hg
  subst hsplit
  have hys : g ∉ ys := (List.nodup_cons.1 (List.nodup_append.1 hnodup).2.1).1
  have hother {zs : List Nat} (hz : g ∉ zs) :
      layOut dimension (fun x k => if x = g then f x k + h x k else f x k) zs =
        layOut dimension f zs :=
    layOut_congr fun x hx k => if_neg (ne_of_mem_of_not_mem hx hz)
  have hblock : Vec.add ((List.range dimension).map (f g)) ((List.range dimension).map (h g)) =
      (List.range dimension).map fun k => f g k + h g k := by
    rw [Vec.add, List.zipWith_map, List.zipWith_self]
  rw [Plan.addFrom, hplace, layOut_append, List.take_left, List.drop_left, layOut_append,
    hother hxs, layOut_cons, layOut_cons, hother hys, add_append_left (by simp), hblock,
    List.drop_append, List.drop_left' (by simp)]
  simp

/-- What a receiver makes of the values of a route: each shared vertex gets its share added, and no
other vertex changes. -/
theorem deposit_layOut (hnodup : globals.Nodup) (hgs : ∀ g ∈ gs, g ∈ globals)
    (hgsnodup : gs.Nodup) :
    Plan.deposit dimension (gs.map globals.idxOf) (layOut dimension h gs)
        (layOut dimension f globals) =
      layOut dimension (fun g k => if g ∈ gs then f g k + h g k else f g k) globals := by
  induction gs generalizing f with
  | nil => simp [Plan.deposit]
  | cons g gs ih =>
    obtain ⟨hg, hgsnodup⟩ := List.nodup_cons.1 hgsnodup
    rw [List.map_cons, layOut_cons, Plan.deposit, List.take_left' (by simp),
      List.drop_left' (by simp), addFrom_layOut hnodup (hgs g List.mem_cons_self),
      ih (fun x hx => hgs x (List.mem_cons_of_mem g hx)) hgsnodup]
    refine layOut_congr fun x _ k => ?_
    by_cases hx : x = g
    · simp [hx, hg]
    · simp [hx]

end Cosimulation.Exchange

import Mathlib.Analysis.InnerProductSpace.PiL2
import Cosimulation.Vec

/-!
# Exact arithmetic

The algorithms are written for any type of scalars. Read over the real numbers they compute without
rounding, and that reading is what the statements about orthogonality, least squares and fixed
points are about: `instance : Scalar ℝ`.

A vector of `n` real scalars is a point of Euclidean space, `euclid n`. On vectors of one length the
operations on lists are those of the space (`euclid_axpy`, `euclid_sub`, ...), the product of lists
is the inner product (`dot_eq_inner`), and nothing is lost on the way (`euclid_injective`).
-/

namespace Cosimulation

noncomputable instance : Scalar ℝ where
  decLt _ _ := inferInstance
  decLe _ _ := inferInstance
  sqrt := Real.sqrt
  abs x := |x|
  hypot a b := Real.sqrt (a * a + b * b)
  signum x := if x < 0 then -1 else 1
  rank a b := if a < b then .lt else if b < a then .gt else .eq

open scoped RealInnerProductSpace

/-- A vector of scalars as a point of Euclidean space. -/
noncomputable def euclid (n : Nat) (v : Vec ℝ) : EuclideanSpace ℝ (Fin n) :=
  WithLp.toLp 2 fun i => v[(i : Nat)]?.getD 0

@[simp]
theorem euclid_apply (n : Nat) (v : Vec ℝ) (i : Fin n) : euclid n v i = v[(i : Nat)]?.getD 0 := rfl

section
variable {n : Nat} {v w : Vec ℝ}

theorem euclid_injective (hv : v.length = n) (hw : w.length = n) (h : euclid n v = euclid n w) :
    v = w := by
  refine List.ext_getElem (hv.trans hw.symm) fun i hi hi' => ?_
  have hc := congrArg (fun x : EuclideanSpace ℝ (Fin n) => x ⟨i, hv ▸ hi⟩) h
  simpa only [euclid_apply, List.getElem?_eq_getElem hi, List.getElem?_eq_getElem hi',
    Option.getD_some] using hc

/-- A coordinatewise operation on two vectors acts on the coordinates of their points. -/
theorem getD_zipWith (f : ℝ → ℝ → ℝ) (hv : v.length = n) (hw : w.length = n) (i : Fin n) :
    (List.zipWith f v w)[(i : Nat)]?.getD 0 =
      f (v[(i : Nat)]?.getD 0) (w[(i : Nat)]?.getD 0) := by
  have hi := i.isLt
  rw [List.getElem?_zipWith, List.getElem?_eq_getElem (by omega),
    List.getElem?_eq_getElem (by omega)]
  rfl

theorem euclid_axpy (a : ℝ) (hv : v.length = n) (hw : w.length = n) :
    euclid n (Vec.axpy a v w) = a • euclid n v + euclid n w := by
  ext i
  exact getD_zipWith (fun x y => a * x + y) hv hw i

theorem euclid_add (hv : v.length = n) (hw : w.length = n) :
    euclid n (Vec.add v w) = euclid n v + euclid n w := by
  ext i
  exact getD_zipWith (· + ·) hv hw i

theorem euclid_sub (hv : v.length = n) (hw : w.length = n) :
    euclid n (Vec.sub v w) = euclid n v - euclid n w := by
  ext i
  exact getD_zipWith (· - ·) hv hw i

theorem euclid_scale (a : ℝ) (v : Vec ℝ) : euclid n (Vec.scale a v) = a • euclid n v := by
  ext i
  show ((List.map (· * a) v)[(i : Nat)]?).getD 0 = a * (v[(i : Nat)]?).getD 0
  rw [List.getElem?_map]
  cases v[(i : Nat)]? with
  | none => exact (mul_zero a).symm
  | some x => exact mul_comm x a

theorem euclid_div (a : ℝ) (v : Vec ℝ) : euclid n (v.map (· / a)) = a⁻¹ • euclid n v := by
  ext i
  show ((List.map (· / a) v)[(i : Nat)]?).getD 0 = a⁻¹ * (v[(i : Nat)]?).getD 0
  rw [List.getElem?_map]
  cases v[(i : Nat)]? with
  | none => exact (mul_zero _).symm
  | some x => exact div_eq_inv_mul x a

theorem euclid_zeros (m : Nat) : euclid n (List.replicate m (0 : ℝ)) = 0 := by
  ext i
  show ((List.replicate m (0 : ℝ))[(i : Nat)]?).getD 0 = 0
  rw [List.getElem?_replicate]
  split <;> rfl

/-- The entries of a vector add up to the sum of the coordinates of its point. -/
theorem sum_eq_sum_euclid (hv : v.length = n) : Vec.sum v = ∑ i, euclid n v i := by
  subst hv
  rw [show Vec.sum v = List.sum v from List.sum_eq_foldl.symm, ← Fin.sum_univ_getElem]
  refine Finset.sum_congr rfl fun i _ => ?_
  rw [euclid_apply, List.getElem?_eq_getElem i.isLt]
  rfl

theorem dot_eq_inner (hv : v.length = n) (hw : w.length = n) :
    Vec.dot v w = ⟪euclid n v, euclid n w⟫ := by
  have hl : (v.zipWith (· * ·) w).length = n := by
    rw [List.length_zipWith, hv, hw, Nat.min_self]
  rw [Vec.dot, sum_eq_sum_euclid hl, PiLp.inner_apply]
  refine Finset.sum_congr rfl fun i _ => ?_
  rw [euclid_apply, getD_zipWith (· * ·) hv hw]
  exact mul_comm _ _

theorem norm_eq_norm (hv : v.length = n) : Vec.norm v = ‖euclid n v‖ := by
  rw [Vec.norm, dot_eq_inner hv hv, real_inner_self_eq_norm_sq]
  exact Real.sqrt_sq (norm_nonneg _)

end

@[simp]
theorem dot_nil (w : Vec ℝ) : Vec.dot [] w = 0 := rfl

@[simp]
theorem dot_cons (x y : ℝ) (v w : Vec ℝ) :
    Vec.dot (x :: v) (y :: w) = x * y + Vec.dot v w := by
  rw [Vec.dot, Vec.dot, Vec.sum, Vec.sum, ← List.sum_eq_foldl, ← List.sum_eq_foldl,
    List.zipWith_cons_cons, List.sum_cons]

theorem norm_of_dot {v : Vec ℝ} {r : ℝ} (hr : 0 ≤ r) (h : Vec.dot v v = r * r) : Vec.norm v = r :=
  (congrArg Real.sqrt h).trans (Real.sqrt_mul_self hr)

theorem norm_singleton (x : ℝ) : Vec.norm [x] = |x| :=
  norm_of_dot (abs_nonneg x) (by rw [dot_cons, dot_nil, add_zero, abs_mul_abs_self])

/-- The square of the length is the sum of the squares. -/
theorem norm_sq_eq_sum (v : Vec ℝ) : Vec.norm v ^ 2 = (v.map (· ^ 2)).sum := by
  have hdot : Vec.dot v v = (v.map (· ^ 2)).sum := by
    rw [Vec.dot, show Vec.sum _ = List.sum _ from List.sum_eq_foldl.symm, List.zipWith_self]
    exact congrArg List.sum (List.map_congr_left fun x _ => (sq x).symm)
  have hpos : 0 ≤ (v.map (· ^ 2)).sum :=
    List.sum_nonneg (List.forall_mem_map.2 fun x _ => sq_nonneg x)
  show Real.sqrt (Vec.dot v v) ^ 2 = _
  rw [hdot, Real.sq_sqrt hpos]

/-! ## Extremes -/

theorem foldl_min_le {β : Type} [LinearOrder β] : ∀ (xs : List β) (x : β),
    xs.foldl min x ≤ x ∧ ∀ y ∈ xs, xs.foldl min x ≤ y := by
  intro xs
  induction xs with
  | nil => exact fun x => ⟨le_rfl, fun y hy => absurd hy List.not_mem_nil⟩
  | cons z xs ih =>
    intro x
    obtain ⟨hstart, hrest⟩ := ih (min x z)
    refine ⟨hstart.trans (min_le_left x z), fun y hy => ?_⟩
    rcases List.mem_cons.1 hy with rfl | hy
    · exact hstart.trans (min_le_right x y)
    · exact hrest y hy

theorem smallest_le {v : Vec ℝ} {x : ℝ} (h : x ∈ v) : Vec.smallest v ≤ x := by
  cases v with
  | nil => cases h
  | cons z v =>
    have hmin : Vec.smallest (z :: v) = v.foldl min z :=
      congrArg (fun f => v.foldl f z) (funext fun m => funext fun y => (min_def m y).symm)
    obtain ⟨hstart, hrest⟩ := foldl_min_le v z
    rw [hmin]
    rcases List.mem_cons.1 h with rfl | h
    · exact hstart
    · exact hrest x h

theorem le_largest {v : Vec ℝ} {x : ℝ} (h : x ∈ v) : x ≤ Vec.largest v := by
  cases v with
  | nil => cases h
  | cons z v =>
    have hmax : Vec.largest (z :: v) = v.foldl max z :=
      congrArg (fun f => v.foldl f z) (funext fun m => funext fun y => (max_def' m y).symm)
    -- The largest entry is the smallest one of the order turned around.
    obtain ⟨hstart, hrest⟩ := @foldl_min_le ℝᵒᵈ _ v z
    rw [hmax]
    rcases List.mem_cons.1 h with rfl | h
    · exact hstart
    · exact hrest x h

end Cosimulation

import Mathlib.Algebra.BigOperators.Group.List.Basic
import Cosimulation.Proofs.Exact.Arithmetic

/-!
# The same vector in another order of its rows

Two runs that stack the same blocks in different orders, or weight them by a common factor, compute
with different vectors that say the same. Here rows have labels: a vector is a quantity `g` of the
labels, written down in the order of a list of them. `Relaid rows rows' w v v'` says that `v` and
`v'` write down one quantity in two orders, the second `w` times as large.

Whatever is computed entry by entry is relaid again (`Relaid.zipWith`, `Relaid.map`), and products
and lengths, which do not look at the order, differ by the factors alone (`Relaid.dot`,
`Relaid.norm`).
-/

namespace Cosimulation

/-- Two vectors write down one quantity of the rows in two orders, the second `w` times as large. -/
def Relaid {κ : Type} (rows rows' : List κ) (w : ℝ) (v v' : Vec ℝ) : Prop :=
  ∃ g : κ → ℝ, v = rows.map g ∧ v' = rows'.map fun k => w * g k

namespace Relaid

variable {κ : Type} {rows rows' : List κ} {w w₁ w₂ w₃ : ℝ} {v v' u u' : Vec ℝ}

theorem length (h : Relaid rows rows' w v v') : v.length = rows.length := by
  obtain ⟨g, rfl, -⟩ := h
  exact List.length_map g

theorem length' (h : Relaid rows rows' w v v') : v'.length = rows'.length := by
  obtain ⟨g, -, rfl⟩ := h
  exact List.length_map _

/-! ## Entry by entry -/

/-- Operations on entries that agree up to the factors. -/
theorem zipWith {f f' : ℝ → ℝ → ℝ} (hf : ∀ x y, f' (w₁ * x) (w₂ * y) = w₃ * f x y)
    (hv : Relaid rows rows' w₁ v v') (hu : Relaid rows rows' w₂ u u') :
    Relaid rows rows' w₃ (v.zipWith f u) (v'.zipWith f' u') := by
  obtain ⟨g, rfl, rfl⟩ := hv
  obtain ⟨h, rfl, rfl⟩ := hu
  refine ⟨fun k => f (g k) (h k), ?_, ?_⟩
  · rw [List.zipWith_map, List.zipWith_self]
  · rw [List.zipWith_map, List.zipWith_self]
    exact List.map_congr_left fun k _ => hf (g k) (h k)

theorem map {f f' : ℝ → ℝ} (hf : ∀ x, f' (w₁ * x) = w₂ * f x) (hv : Relaid rows rows' w₁ v v') :
    Relaid rows rows' w₂ (v.map f) (v'.map f') := by
  obtain ⟨g, rfl, rfl⟩ := hv
  refine ⟨fun k => f (g k), List.map_map, ?_⟩
  rw [List.map_map]
  exact List.map_congr_left fun k _ => hf (g k)

theorem add (hv : Relaid rows rows' w v v') (hu : Relaid rows rows' w u u') :
    Relaid rows rows' w (v.add u) (v'.add u') :=
  hv.zipWith (fun x y => (mul_add w x y).symm) hu

theorem sub (hv : Relaid rows rows' w v v') (hu : Relaid rows rows' w u u') :
    Relaid rows rows' w (v.sub u) (v'.sub u') :=
  hv.zipWith (fun x y => (mul_sub w x y).symm) hu

theorem scale (a : ℝ) (hv : Relaid rows rows' w v v') :
    Relaid rows rows' w (Vec.scale a v) (Vec.scale a v') :=
  hv.map fun x => mul_assoc w x a

/-- The coefficient takes up how the factors differ. -/
theorem axpy {a a' : ℝ} (ha : a' * w₁ = w₂ * a) (hv : Relaid rows rows' w₁ v v')
    (hu : Relaid rows rows' w₂ u u') :
    Relaid rows rows' w₂ (Vec.axpy a v u) (Vec.axpy a' v' u') :=
  hv.zipWith (fun x y => by rw [← mul_assoc, ha]; ring) hu

theorem zeros (rows rows' : List κ) (w : ℝ) :
    Relaid rows rows' w (List.replicate rows.length 0) (List.replicate rows'.length 0) :=
  ⟨fun _ => 0, List.map_const'.symm, by simp only [mul_zero, List.map_const']⟩

/-! ## Over all entries -/

/-- A product does not depend on the order. -/
theorem dot (hrows : rows.Perm rows') (hv : Relaid rows rows' w₁ v v')
    (hu : Relaid rows rows' w₂ u u') : v'.dot u' = w₁ * w₂ * v.dot u := by
  obtain ⟨h, hvu, hvu'⟩ : Relaid rows rows' (w₁ * w₂) (v.zipWith (· * ·) u)
      (v'.zipWith (· * ·) u') :=
    hv.zipWith (fun x y => mul_mul_mul_comm w₁ x w₂ y) hu
  rw [Vec.dot, Vec.dot, hvu, hvu', Vec.sum, Vec.sum, ← List.sum_eq_foldl, ← List.sum_eq_foldl,
    List.sum_map_mul_left, (hrows.map h).sum_eq]

theorem norm (hrows : rows.Perm rows') (hw : 0 ≤ w) (hv : Relaid rows rows' w v v') :
    v'.norm = w * v.norm := by
  show Real.sqrt (v'.dot v') = w * Real.sqrt (v.dot v)
  rw [hv.dot hrows hv, Real.sqrt_mul (mul_self_nonneg w), Real.sqrt_mul_self hw]

/-- Combinations of relaid vectors, with the same coefficients. -/
theorem plusCombination : ∀ (as : List ℝ) {vs vs' : List (Vec ℝ)} {u u' x x' : Vec ℝ},
    List.Forall₂ (Relaid rows rows' w) vs vs' → Relaid rows rows' w u u' →
      Vec.plusCombination u as vs = .ok x → Vec.plusCombination u' as vs' = .ok x' →
      Relaid rows rows' w x x' := by
  intro as
  induction as with
  | nil =>
    intro vs vs' u u' x x' _ hu hx hx'
    obtain rfl := Except.ok.inj hx
    obtain rfl := Except.ok.inj hx'
    exact hu
  | cons a as ih =>
    intro vs vs' u u' x x' hvs hu hx hx'
    cases hvs with
    | nil =>
      obtain rfl := Except.ok.inj hx
      obtain rfl := Except.ok.inj hx'
      exact hu
    | cons hv hvs =>
      obtain ⟨y, hy, hx⟩ := bind_ok hx
      obtain ⟨y', hy', hx'⟩ := bind_ok hx'
      obtain ⟨-, rfl⟩ := Vec.plusScaled_ok_iff.1 hy
      obtain ⟨-, rfl⟩ := Vec.plusScaled_ok_iff.1 hy'
      exact ih hvs (hv.axpy (mul_comm a w) hu) hx hx'

end Relaid

end Cosimulation

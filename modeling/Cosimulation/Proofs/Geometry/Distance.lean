import Mathlib.Analysis.InnerProductSpace.PiL2
import Cosimulation.Geometry.Projection
import Cosimulation.Proofs.Data.Triples
import Cosimulation.Proofs.Exact.Arithmetic

/-!
# Distances to segments and triangles

The search for the closest point of a triangle asks in turn for its corners, its sides and its
inside, and the distance is measured to the point found. Here that point is shown to be the closest
one of the whole figure: the distance is the least of those to all convex combinations of the
corners (`closestOnTriangle_isLeast`), so it does not depend on the order in which the corners are
given, whereas the search does (`distance2_isLeast`). The same holds of a segment.

Two facts carry the argument.

* A point `q` of a figure is closest to `p` if no corner lies in front of it, seen along `p - q`:
  `(p - q) · (v - q) ≤ 0` for the corners `v` (`isLeast_of_behind`). Each region of the search is
  the condition under which this holds of the point returned there.
* The regions leave nothing out but the inside (`inward_nonneg_of_not_around`). A point that is
  beyond the line `ab` but not beside the side `ab` is past one of its ends. If that end is an
  obtuse corner, the point need not lie before it: it may be beside the other side that starts there
  or even before the corner where that one stops, but nowhere else (`around_of_past_start`).
-/

namespace Cosimulation

attribute [ext] Point

namespace Point

section
variable (p q : Point ℝ) (t : ℝ)

@[simp] theorem sub_x : (p - q).x = p.x - q.x := rfl
@[simp] theorem sub_y : (p - q).y = p.y - q.y := rfl
@[simp] theorem sub_z : (p - q).z = p.z - q.z := rfl
@[simp] theorem add_x : (p + q).x = p.x + q.x := rfl
@[simp] theorem add_y : (p + q).y = p.y + q.y := rfl
@[simp] theorem add_z : (p + q).z = p.z + q.z := rfl
@[simp] theorem scale_x : (p.scale t).x = p.x * t := rfl
@[simp] theorem scale_y : (p.scale t).y = p.y * t := rfl
@[simp] theorem scale_z : (p.scale t).z = p.z * t := rfl

theorem dot_eq : p.dot q = p.x * q.x + p.y * q.y + p.z * q.z := rfl

end

/-- The vector product. -/
def cross (p q : Point ℝ) : Point ℝ :=
  ⟨p.y * q.z - p.z * q.y, p.z * q.x - p.x * q.z, p.x * q.y - p.y * q.x⟩

theorem dot_comm (p q : Point ℝ) : p.dot q = q.dot p := by
  simp only [dot_eq]
  ring

/-- Lagrange's identity: the squared length of the vector product is the Gram determinant. -/
theorem norm2_cross (p q : Point ℝ) :
    (p.cross q).norm2 = p.norm2 * q.norm2 - p.dot q * p.dot q := by
  simp only [norm2, dot_eq, cross]
  ring

theorem norm2_nonneg (p : Point ℝ) : 0 ≤ p.norm2 :=
  add_nonneg (add_nonneg (mul_self_nonneg _) (mul_self_nonneg _)) (mul_self_nonneg _)

end Point

namespace Geometry

open Point

variable {p q a b c x : Point ℝ}

theorem norm2_sub_eq_zero_iff : (b - a).norm2 = 0 ↔ a = b := by
  refine ⟨fun h => ?_, fun h => ?_⟩
  · simp only [norm2, dot_eq, sub_x, sub_y, sub_z] at h
    have hx := mul_self_nonneg (b.x - a.x)
    have hy := mul_self_nonneg (b.y - a.y)
    have hz := mul_self_nonneg (b.z - a.z)
    refine Point.ext ?_ ?_ ?_ <;> refine (sub_eq_zero.mp (mul_self_eq_zero.mp ?_)).symm <;> linarith
  · subst h
    simp [norm2, dot_eq]

/-! ### Figures and the closest of their points -/

/-- The points between `a` and `b`: their convex combinations. -/
def segmentPoints (a b : Point ℝ) : Set (Point ℝ) :=
  {x | ∃ u v : ℝ, 0 ≤ u ∧ 0 ≤ v ∧ u + v = 1 ∧ x = a.scale u + b.scale v}

/-- The points of the filled triangle: the convex combinations of the corners. -/
def trianglePoints (a b c : Point ℝ) : Set (Point ℝ) :=
  {x | ∃ u v w : ℝ, 0 ≤ u ∧ 0 ≤ v ∧ 0 ≤ w ∧ u + v + w = 1 ∧
    x = a.scale u + b.scale v + c.scale w}

theorem mem_segmentPoints {t : ℝ} (h0 : 0 ≤ t) (h1 : t ≤ 1) :
    a + (b - a).scale t ∈ segmentPoints a b := by
  refine ⟨1 - t, t, by linarith, h0, by ring, Point.ext ?_ ?_ ?_⟩ <;> simp <;> ring

theorem mem_trianglePoints {u v w : ℝ} (hu : 0 ≤ u) (hv : 0 ≤ v) (hw : 0 ≤ w)
    (h : u + v + w = 1) : a + (b - a).scale v + (c - a).scale w ∈ trianglePoints a b c := by
  obtain rfl : u = 1 - v - w := by linarith
  refine ⟨1 - v - w, v, w, hu, hv, hw, h, Point.ext ?_ ?_ ?_⟩ <;> simp <;> ring

theorem trianglePoints_swap (a b c : Point ℝ) : trianglePoints b a c = trianglePoints a b c := by
  have hsub (a b c : Point ℝ) : trianglePoints b a c ⊆ trianglePoints a b c := by
    rintro x ⟨u, v, w, hu, hv, hw, h, rfl⟩
    refine ⟨v, u, w, hv, hu, hw, by linarith, Point.ext ?_ ?_ ?_⟩ <;> simp <;> ring
  exact (hsub a b c).antisymm (hsub b a c)

theorem trianglePoints_rotate (a b c : Point ℝ) :
    trianglePoints b c a = trianglePoints a b c := by
  refine Set.Subset.antisymm ?_ ?_
  · rintro x ⟨u, v, w, hu, hv, hw, h, rfl⟩
    refine ⟨w, u, v, hw, hu, hv, by linarith, Point.ext ?_ ?_ ?_⟩ <;> simp <;> ring
  · rintro x ⟨u, v, w, hu, hv, hw, h, rfl⟩
    refine ⟨v, w, u, hv, hw, hu, by linarith, Point.ext ?_ ?_ ?_⟩ <;> simp <;> ring

/-- Going from `q` away from the side on which `p` lies does not bring one closer to `p`. -/
theorem distance2_le_of_behind (h : (p - q).dot (x - q) ≤ 0) : p.distance2 q ≤ p.distance2 x := by
  have hsq := norm2_nonneg (x - q)
  have hexpand : p.distance2 x
      = p.distance2 q - 2 * (p - q).dot (x - q) + (x - q).norm2 := by
    simp only [distance2, norm2, dot_eq, sub_x, sub_y, sub_z]
    ring
  linarith

theorem isLeast_of_behind {s : Set (Point ℝ)} (hq : q ∈ s)
    (h : ∀ x ∈ s, (p - q).dot (x - q) ≤ 0) : IsLeast (p.distance2 '' s) (p.distance2 q) := by
  refine ⟨⟨q, hq, rfl⟩, ?_⟩
  rintro _ ⟨x, hx, rfl⟩
  exact distance2_le_of_behind (h x hx)

theorem segmentPoints_isLeast (hq : q ∈ segmentPoints a b) (ha : (p - q).dot (a - q) ≤ 0)
    (hb : (p - q).dot (b - q) ≤ 0) :
    IsLeast (p.distance2 '' segmentPoints a b) (p.distance2 q) := by
  refine isLeast_of_behind hq ?_
  rintro x ⟨u, v, hu, hv, huv, rfl⟩
  have hsum : (p - q).dot (a.scale u + b.scale v - q)
      = u * (p - q).dot (a - q) + v * (p - q).dot (b - q) := by
    obtain rfl : v = 1 - u := by linarith
    simp only [dot_eq, sub_x, sub_y, sub_z, add_x, add_y, add_z, scale_x, scale_y, scale_z]
    ring
  rw [hsum]
  exact add_nonpos (mul_nonpos_of_nonneg_of_nonpos hu ha) (mul_nonpos_of_nonneg_of_nonpos hv hb)

theorem trianglePoints_isLeast (hq : q ∈ trianglePoints a b c) (ha : (p - q).dot (a - q) ≤ 0)
    (hb : (p - q).dot (b - q) ≤ 0) (hc : (p - q).dot (c - q) ≤ 0) :
    IsLeast (p.distance2 '' trianglePoints a b c) (p.distance2 q) := by
  refine isLeast_of_behind hq ?_
  rintro x ⟨u, v, w, hu, hv, hw, huvw, rfl⟩
  have hsum : (p - q).dot (a.scale u + b.scale v + c.scale w - q)
      = u * (p - q).dot (a - q) + v * (p - q).dot (b - q) + w * (p - q).dot (c - q) := by
    obtain rfl : w = 1 - u - v := by linarith
    simp only [dot_eq, sub_x, sub_y, sub_z, add_x, add_y, add_z, scale_x, scale_y, scale_z]
    ring
  rw [hsum]
  exact add_nonpos (add_nonpos (mul_nonpos_of_nonneg_of_nonpos hu ha)
    (mul_nonpos_of_nonneg_of_nonpos hv hb)) (mul_nonpos_of_nonneg_of_nonpos hw hc)

/-! ### The order of the corners -/

theorem trianglePoints_perm {u v w : Point ℝ} (h : [u, v, w].Perm [a, b, c]) :
    trianglePoints u v w = trianglePoints a b c :=
  eq_of_perm trianglePoints_swap trianglePoints_rotate h

/-- The Gram determinant of two sides: four times the squared area of the triangle. -/
noncomputable def gram (a b c : Point ℝ) : ℝ := ((b - a).cross (c - a)).norm2

theorem gram_eq (a b c : Point ℝ) :
    gram a b c = (b - a).norm2 * (c - a).norm2 - (b - a).dot (c - a) * (b - a).dot (c - a) :=
  norm2_cross _ _

theorem gram_perm {u v w : Point ℝ} (h : [u, v, w].Perm [a, b, c]) : gram u v w = gram a b c := by
  refine eq_of_perm (fun a b c => ?_) (fun a b c => ?_) h
  all_goals
    simp only [gram, cross, norm2, dot_eq, sub_x, sub_y, sub_z]
    ring

/-- The sides of a triangle that has an area have a length. -/
theorem norm2_pos_of_gram_pos (h : 0 < gram a b c) : 0 < (b - a).norm2 := by
  refine (norm2_nonneg _).lt_of_ne fun h0 => ?_
  have hle := mul_self_nonneg ((b - a).dot (c - a))
  rw [gram_eq, ← h0] at h
  linarith

/-! ### The regions of a triangle -/

/-- The point `p` lies before the corner `a`: no side leads from there towards `p`. -/
def BeforeCorner (p a b c : Point ℝ) : Prop :=
  (b - a).dot (p - a) ≤ 0 ∧ (c - a).dot (p - a) ≤ 0

/-- How far `p` lies on the side of `c` of the line through `a` and `b`, in the plane of the
triangle: the weight of `c` in the projection of `p`, times the Gram determinant. -/
noncomputable def inward (p a b c : Point ℝ) : ℝ :=
  (b - a).norm2 * (c - a).dot (p - a) - (b - a).dot (c - a) * (b - a).dot (p - a)

/-- The point `p` lies beside the side `ab`: away from `c`, and past neither end. -/
structure BesideSide (p a b c : Point ℝ) : Prop where
  outward : inward p a b c ≤ 0
  past_start : 0 ≤ (b - a).dot (p - a)
  past_stop : 0 ≤ (a - b).dot (p - b)

/-- The point `p` lies before a corner or beside a side. -/
def Around (p a b c : Point ℝ) : Prop :=
  ∃ u v w, [u, v, w].Perm [a, b, c] ∧ (BeforeCorner p u v w ∨ BesideSide p u v w)

theorem around_perm {u v w : Point ℝ} (h : [u, v, w].Perm [a, b, c]) (hp : Around p u v w) :
    Around p a b c := by
  obtain ⟨u', v', w', hperm, hregion⟩ := hp
  exact ⟨u', v', w', hperm.trans h, hregion⟩

theorem inward_swap (p a b c : Point ℝ) : inward p b a c = inward p a b c := by
  simp only [inward, norm2, dot_eq, sub_x, sub_y, sub_z]
  ring

theorem inward_sum (p a b c : Point ℝ) :
    inward p b c a + inward p c a b + inward p a b c = gram a b c := by
  simp only [inward, gram, cross, norm2, dot_eq, sub_x, sub_y, sub_z]
  ring

/-- The numbers behind `around_of_past_start`: the squared lengths `A` and `C` of the sides from a
corner, their product `B`, and the products `s` and `t` of the sides with the way to the point. -/
theorem around_of_negative {A B C s t : ℝ} (hA : 0 < A) (hgram : B * B ≤ A * C) (hs : s < 0)
    (hout : A * t ≤ B * s) :
    t ≤ 0 ∨ (C * s - B * t ≤ 0 ∧ 0 ≤ t ∧ 0 ≤ C - t) ∨ (C - t ≤ 0 ∧ s - B - t + C ≤ 0) := by
  rcases le_or_gt t 0 with ht | ht
  · exact .inl ht
  have hB : B < 0 := by
    have hpos : 0 < B * s := (mul_pos hA ht).trans_le hout
    exact neg_of_mul_pos_left hpos hs.le
  refine .inr ?_
  rcases le_or_gt t C with htC | htC
  · have hscaled : A * (C * s - B * t) ≤ (A * C - B * B) * s := by nlinarith
    have hneg : (A * C - B * B) * s ≤ 0 :=
      mul_nonpos_of_nonneg_of_nonpos (sub_nonneg.mpr hgram) hs.le
    refine .inl ⟨?_, ht.le, sub_nonneg.mpr htC⟩
    by_contra hcon
    have := mul_pos hA (not_le.mp hcon)
    linarith
  · refine .inr ⟨by linarith, ?_⟩
    by_contra hcon
    have hBs : B ≤ s := by linarith
    have h1 : B * s ≤ B * B := mul_le_mul_of_nonpos_left hBs hB.le
    have h2 : A * C < A * t := mul_lt_mul_of_pos_left htC hA
    linarith

/-- A point outside of the line `ab` and past its start is before that corner, beside the other
side from there, or before the corner where that one stops. -/
theorem around_of_past_start (hlen : 0 < (b - a).norm2) (hout : inward p a b c ≤ 0)
    (hpast : (b - a).dot (p - a) < 0) : Around p a b c := by
  have hgram : (b - a).dot (c - a) * (b - a).dot (c - a) ≤ (b - a).norm2 * (c - a).norm2 := by
    have harea : 0 ≤ gram a b c := norm2_nonneg _
    rw [gram_eq] at harea
    linarith
  have hdot : (a - c).dot (p - c) = (c - a).norm2 - (c - a).dot (p - a) := by
    simp only [norm2, dot_eq, sub_x, sub_y, sub_z]
    ring
  have hdot' : (b - c).dot (p - c)
      = (b - a).dot (p - a) - (b - a).dot (c - a) - (c - a).dot (p - a) + (c - a).norm2 := by
    simp only [norm2, dot_eq, sub_x, sub_y, sub_z]
    ring
  rcases around_of_negative hlen hgram hpast (sub_nonpos.mp hout)
    with hcorner | ⟨hside, hstart, hstop⟩ | ⟨hstop, hother⟩
  · exact ⟨a, b, c, .refl _, .inl ⟨hpast.le, hcorner⟩⟩
  · refine ⟨a, c, b, (perm_rotate b a c).trans (perm_swap a b c), .inr ⟨?_, hstart, hdot ▸ hstop⟩⟩
    rw [inward, dot_comm (c - a) (b - a)]
    exact hside
  · exact ⟨c, a, b, (perm_rotate c a b).symm, .inl ⟨hdot ▸ hstop, hdot' ▸ hother⟩⟩

/-- A point outside of a line along a side is before a corner or beside a side. -/
theorem around_of_outward (hlen : 0 < (b - a).norm2) (hout : inward p a b c ≤ 0) :
    Around p a b c := by
  rcases lt_or_ge ((b - a).dot (p - a)) 0 with hstart | hstart
  · exact around_of_past_start hlen hout hstart
  rcases lt_or_ge ((a - b).dot (p - b)) 0 with hstop | hstop
  · have hlen' : 0 < (a - b).norm2 := by
      have : (a - b).norm2 = (b - a).norm2 := by
        simp only [norm2, dot_eq, sub_x, sub_y, sub_z]
        ring
      rwa [this]
    rw [← inward_swap] at hout
    exact around_perm (perm_swap a b c) (around_of_past_start hlen' hout hstop)
  · exact ⟨a, b, c, .refl _, .inr ⟨hout, hstart, hstop⟩⟩

theorem BeforeCorner.swap (h : BeforeCorner p a c b) : BeforeCorner p a b c := And.symm h

theorem BesideSide.swap (h : BesideSide p b a c) : BesideSide p a b c :=
  ⟨(inward_swap p a b c).symm.trans_le h.outward, h.past_stop, h.past_start⟩

/-- Of the twelve regions six are the other six, named from the other side. -/
theorem Around.cases (h : Around p a b c) :
    (BeforeCorner p a b c ∨ BeforeCorner p b c a ∨ BeforeCorner p c a b) ∨
      BesideSide p a b c ∨ BesideSide p a c b ∨ BesideSide p b c a := by
  obtain ⟨u, v, w, hperm, hregion⟩ := h
  obtain ⟨rfl, rfl, rfl⟩ | ⟨rfl, rfl, rfl⟩ | ⟨rfl, rfl, rfl⟩ | ⟨rfl, rfl, rfl⟩ | ⟨rfl, rfl, rfl⟩
    | ⟨rfl, rfl, rfl⟩ := cases_of_perm hperm
  · exact hregion.imp .inl .inl
  · exact hregion.imp (fun h => .inr (.inl h.swap)) (fun h => .inl h.swap)
  · exact hregion.imp (fun h => .inr (.inr h.swap)) (fun h => .inr (.inr h.swap))
  · exact hregion.imp (fun h => .inr (.inl h)) (fun h => .inr (.inr h))
  · exact hregion.imp (fun h => .inr (.inr h)) (fun h => .inr (.inl h.swap))
  · exact hregion.imp (fun h => .inl h.swap) (fun h => .inr (.inl h))

/-- The regions of corners and sides leave out the points over the inside only. -/
theorem inward_nonneg_of_not_around (harea : 0 < gram a b c) (h : ¬ Around p a b c) :
    0 ≤ inward p a b c := by
  by_contra hneg
  exact h (around_of_outward (norm2_pos_of_gram_pos harea) (not_le.mp hneg).le)

/-! ### The walk through the regions -/

/-- The foot of the perpendicular from `p` to the line through `a` and `b`. -/
noncomputable def foot (p a b : Point ℝ) : Point ℝ :=
  a + (b - a).scale ((b - a).dot (p - a) / (b - a).norm2)

section
variable (p a b c d : Point ℝ)

theorem dot_reversed : (a - b).dot d = -(b - a).dot d := by
  simp only [dot_eq, sub_x, sub_y, sub_z]
  ring

theorem dot_opposite : (c - b).dot d = (c - a).dot d - (b - a).dot d := by
  simp only [dot_eq, sub_x, sub_y, sub_z]
  ring

theorem norm2_eq_dot_sub : (b - a).norm2 = (b - a).dot (p - a) - (b - a).dot (p - b) := by
  simp only [norm2, dot_eq, sub_x, sub_y, sub_z]
  ring

theorem inward_eq : inward p a b c =
    (b - a).dot (p - a) * (c - a).dot (p - b) - (b - a).dot (p - b) * (c - a).dot (p - a) := by
  simp only [inward, norm2, dot_eq, sub_x, sub_y, sub_z]
  ring

theorem inward_opposite_eq : inward p b c a =
    (b - a).dot (p - b) * (c - a).dot (p - c) - (b - a).dot (p - c) * (c - a).dot (p - b) := by
  simp only [inward, norm2, dot_eq, sub_x, sub_y, sub_z]
  ring

end

theorem besideSide_iff : BesideSide p a b c ↔
    inward p a b c ≤ 0 ∧ 0 ≤ (b - a).dot (p - a) ∧ (b - a).dot (p - b) ≤ 0 := by
  refine ⟨fun ⟨h, h0, h1⟩ => ⟨h, h0, ?_⟩, fun ⟨h, h0, h1⟩ => ⟨h, h0, ?_⟩⟩
  all_goals
    have := dot_reversed a b (p - b)
    linarith

theorem beforeCorner_iff : BeforeCorner p b c a ↔
    0 ≤ (b - a).dot (p - b) ∧ (c - a).dot (p - b) ≤ (b - a).dot (p - b) := by
  rw [BeforeCorner, dot_reversed a b, dot_opposite a b c]
  constructor <;> rintro ⟨h1, h2⟩ <;> constructor <;> linarith

open Classical in
theorem closestOnTriangle_eq (p a b c : Point ℝ) :
    closestOnTriangle p a b c =
      if BeforeCorner p a b c then a
      else if BeforeCorner p b c a then b
      else if BesideSide p a b c then foot p a b
      else if BeforeCorner p c a b then c
      else if BesideSide p a c b then foot p a c
      else if BesideSide p b c a then foot p b c
      else if |gram a b c| ≤ 1e-30 then closestOnSides p a b c
      else a + (b - a).scale (inward p c a b / gram a b c)
        + (c - a).scale (inward p a b c / gram a b c) := by
  have hvb : (b - a).dot (p - c) * (c - a).dot (p - a) - (b - a).dot (p - a) * (c - a).dot (p - c)
      = inward p a c b := by
    rw [inward_eq]
    ring
  have hstart : (c - a).dot (p - b) - (b - a).dot (p - b) = (c - b).dot (p - b) :=
    (dot_opposite a b c (p - b)).symm
  have hstop : (b - a).dot (p - c) - (c - a).dot (p - c) = -(c - b).dot (p - c) := by
    rw [dot_opposite a b c (p - c), neg_sub]
  have hgram : inward p b c a + inward p a c b + inward p a b c = gram a b c := by
    rw [← inward_swap p a c b]
    exact inward_sum p a b c
  unfold closestOnTriangle
  dsimp only
  rw [← inward_eq, hvb, ← inward_opposite_eq, hgram, ← norm2_eq_dot_sub, ← norm2_eq_dot_sub, hstart,
    hstop, ← sub_eq_add_neg, ← norm2_eq_dot_sub]
  refine if_congr Iff.rfl rfl (if_congr beforeCorner_iff.symm rfl
    (if_congr besideSide_iff.symm rfl (if_congr ?cornerC rfl (if_congr besideSide_iff.symm rfl
      (if_congr ?sideBC rfl ?inside)))))
  case cornerC => exact beforeCorner_iff.symm.trans ⟨And.symm, And.symm⟩
  case sideBC => rw [besideSide_iff, Left.nonneg_neg_iff]
  case inside =>
    rw [inward_swap p a c b]
    exact if_congr Iff.rfl rfl rfl

/-! ### The closest point -/

/-- The conditions of optimality at the point with the weights `v` of `b` and `w` of `c`: no corner
is in front of it, and a side along which it can move both ways is at a right angle. -/
theorem trianglePoints_isLeast_of_weights {v w d e : ℝ} (hv : 0 ≤ v) (hw : 0 ≤ w) (hvw : v + w ≤ 1)
    (hd : (b - a).dot (p - a) = v * (b - a).norm2 + w * (b - a).dot (c - a) + d)
    (he : (c - a).dot (p - a) = v * (b - a).dot (c - a) + w * (c - a).norm2 + e)
    (hd0 : d ≤ 0) (he0 : e ≤ 0) (hcomp : v * d + w * e = 0)
    (hq : q = a + (b - a).scale v + (c - a).scale w) :
    IsLeast (p.distance2 '' trianglePoints a b c) (p.distance2 q) := by
  have hb : (p - q).dot (b - a) = d := by
    have : (p - q).dot (b - a)
        = (b - a).dot (p - a) - (v * (b - a).norm2 + w * (b - a).dot (c - a)) := by
      subst hq
      simp only [norm2, dot_eq, sub_x, sub_y, sub_z, add_x, add_y, add_z, scale_x, scale_y, scale_z]
      ring
    linarith
  have hc : (p - q).dot (c - a) = e := by
    have : (p - q).dot (c - a)
        = (c - a).dot (p - a) - (v * (b - a).dot (c - a) + w * (c - a).norm2) := by
      subst hq
      simp only [norm2, dot_eq, sub_x, sub_y, sub_z, add_x, add_y, add_z, scale_x, scale_y, scale_z]
      ring
    linarith
  have ha : (p - q).dot (a - q) = 0 := by
    have : (p - q).dot (a - q) = -(v * (p - q).dot (b - a) + w * (p - q).dot (c - a)) := by
      subst hq
      simp only [dot_eq, sub_x, sub_y, sub_z, add_x, add_y, add_z, scale_x, scale_y, scale_z]
      ring
    rw [this, hb, hc, hcomp, neg_zero]
  have hsplit (u : Point ℝ) : (p - q).dot (u - q) = (p - q).dot (u - a) + (p - q).dot (a - q) := by
    simp only [dot_eq, sub_x, sub_y, sub_z]
    ring
  refine trianglePoints_isLeast ?_ ha.le ?_ ?_
  · rw [hq]
    exact mem_trianglePoints (u := 1 - v - w) (by linarith) hv hw (by ring)
  · rwa [hsplit, ha, hb, add_zero]
  · rwa [hsplit, ha, hc, add_zero]

theorem BeforeCorner.isLeast (h : BeforeCorner p a b c) :
    IsLeast (p.distance2 '' trianglePoints a b c) (p.distance2 a) := by
  refine trianglePoints_isLeast_of_weights (v := 0) (w := 0) le_rfl le_rfl (by norm_num)
    (by ring) (by ring) h.1 h.2 (by ring) (Point.ext ?_ ?_ ?_)
  all_goals simp

theorem BesideSide.isLeast (hlen : 0 < (b - a).norm2) (h : BesideSide p a b c) :
    IsLeast (p.distance2 '' trianglePoints a b c) (p.distance2 (foot p a b)) := by
  obtain ⟨hout, hstart, hstop⟩ := besideSide_iff.mp h
  have hfoot : (b - a).dot (p - a) / (b - a).norm2 * (b - a).norm2 = (b - a).dot (p - a) :=
    div_mul_cancel₀ _ hlen.ne'
  have hbeyond : (c - a).dot (p - a)
      ≤ (b - a).dot (p - a) / (b - a).norm2 * (b - a).dot (c - a) := by
    rw [div_mul_eq_mul_div, le_div_iff₀ hlen]
    rw [inward] at hout
    linarith
  refine trianglePoints_isLeast_of_weights (div_nonneg hstart hlen.le) le_rfl ?_
    (d := 0) (by linarith) (add_sub_cancel _ _).symm le_rfl ?_ (by ring) (Point.ext ?_ ?_ ?_)
  · rw [add_zero, div_le_one hlen, norm2_eq_dot_sub p a b]
    linarith
  · linarith
  all_goals simp [foot]

section
variable (p)

theorem inward_second : inward p c a b
    = (c - a).norm2 * (b - a).dot (p - a) - (b - a).dot (c - a) * (c - a).dot (p - a) := by
  rw [← inward_swap, inward, dot_comm (c - a) (b - a)]

/-- Cramer's rule for the weights of the projection of `p`. -/
theorem cramer (harea : gram a b c ≠ 0) :
    (b - a).dot (p - a) = inward p c a b / gram a b c * (b - a).norm2
        + inward p a b c / gram a b c * (b - a).dot (c - a) ∧
      (c - a).dot (p - a) = inward p c a b / gram a b c * (b - a).dot (c - a)
        + inward p a b c / gram a b c * (c - a).norm2 := by
  have hgram := gram_eq a b c
  constructor
  all_goals
    field_simp
    rw [inward_second, inward, hgram]
    ring

end

theorem inside_isLeast (harea : 0 < gram a b c) (ha : 0 ≤ inward p b c a)
    (hb : 0 ≤ inward p c a b) (hc : 0 ≤ inward p a b c) :
    IsLeast (p.distance2 '' trianglePoints a b c)
      (p.distance2 (a + (b - a).scale (inward p c a b / gram a b c)
        + (c - a).scale (inward p a b c / gram a b c))) := by
  have hsum := inward_sum p a b c
  obtain ⟨hd, he⟩ := cramer p harea.ne'
  refine trianglePoints_isLeast_of_weights (div_nonneg hb harea.le) (div_nonneg hc harea.le) ?_
    (d := 0) (e := 0) (hd.trans (add_zero _).symm) (he.trans (add_zero _).symm) le_rfl le_rfl
    (by ring) rfl
  rw [← add_div, div_le_one harea]
  linarith

theorem closestOnTriangle_isLeast (p : Point ℝ) (h : 1e-30 < gram a b c) :
    IsLeast (p.distance2 '' trianglePoints a b c) (triangleDistance2 p a b c) := by
  have harea : 0 < gram a b c := lt_trans (by norm_num) h
  have hside {u v w : Point ℝ} (hperm : [u, v, w].Perm [a, b, c]) (hside : BesideSide p u v w) :
      IsLeast (p.distance2 '' trianglePoints a b c) (p.distance2 (foot p u v)) := by
    rw [← trianglePoints_perm hperm]
    exact hside.isLeast (norm2_pos_of_gram_pos (harea.trans_eq (gram_perm hperm).symm))
  have hcorner {u v w : Point ℝ} (hperm : [u, v, w].Perm [a, b, c])
      (hcorner : BeforeCorner p u v w) :
      IsLeast (p.distance2 '' trianglePoints a b c) (p.distance2 u) :=
    trianglePoints_perm hperm ▸ hcorner.isLeast
  have hinside {u v w : Point ℝ} (hperm : [u, v, w].Perm [a, b, c]) (hp : ¬ Around p a b c) :
      0 ≤ inward p u v w :=
    inward_nonneg_of_not_around (harea.trans_eq (gram_perm hperm).symm)
      fun h => hp (around_perm hperm h)
  rw [triangleDistance2, closestOnTriangle_eq]
  split_ifs with h1 h2 h3 h4 h5 h6 h7
  · exact hcorner (.refl _) h1
  · exact hcorner (perm_rotate a b c) h2
  · exact hside (.refl _) h3
  · exact hcorner (perm_rotate c a b).symm h4
  · exact hside ((perm_rotate b a c).trans (perm_swap a b c)) h5
  · exact hside (perm_rotate a b c) h6
  · exact absurd ((le_abs_self _).trans h7) h.not_ge
  · have houtside : ¬ Around p a b c := fun hp =>
      hp.cases.elim (fun hc => hc.elim h1 fun hc => hc.elim h2 h4)
        fun hs => hs.elim h3 fun hs => hs.elim h5 h6
    exact inside_isLeast harea (hinside (perm_rotate a b c) houtside)
      (hinside (perm_rotate c a b).symm houtside) (hinside (.refl _) houtside)

/-- At the parameter `t` the way to the point may lead on, towards the end `b`, only if that is
where `t` stops, and back only from the end `a`. -/
theorem segmentPoints_isLeast_of_parameter {t d : ℝ} (h0 : 0 ≤ t) (h1 : t ≤ 1)
    (hd : (p - a).dot (b - a) = t * (b - a).norm2 + d) (hback : 0 ≤ t * d)
    (hon : (1 - t) * d ≤ 0) : IsLeast (p.distance2 '' segmentPoints a b)
      (p.distance2 (a + (b - a).scale t)) := by
  have hstart : (p - (a + (b - a).scale t)).dot (a - (a + (b - a).scale t)) = -(t * d) := by
    rw [show d = (p - a).dot (b - a) - t * (b - a).norm2 by linarith]
    simp only [norm2, dot_eq, sub_x, sub_y, sub_z, add_x, add_y, add_z, scale_x, scale_y, scale_z]
    ring
  have hstop : (p - (a + (b - a).scale t)).dot (b - (a + (b - a).scale t)) = (1 - t) * d := by
    rw [show d = (p - a).dot (b - a) - t * (b - a).norm2 by linarith]
    simp only [norm2, dot_eq, sub_x, sub_y, sub_z, add_x, add_y, add_z, scale_x, scale_y, scale_z]
    ring
  exact segmentPoints_isLeast (mem_segmentPoints h0 h1) (by linarith) (by linarith)

theorem closestOnSegment_isLeast (p : Point ℝ) (h : 1e-30 < (b - a).norm2) :
    IsLeast (p.distance2 '' segmentPoints a b) (segmentDistance2 p a b) := by
  have hlen : 0 < (b - a).norm2 := lt_trans (by norm_num) h
  have hparameter : segmentParameter p a b = some ((p - a).dot (b - a) / (b - a).norm2) :=
    if_neg h.not_ge
  rw [segmentDistance2, closestOnSegment, hparameter]
  show IsLeast _ (p.distance2 (a + (b - a).scale (clampUnit _)))
  rw [clampUnit]
  split_ifs with hbelow habove
  · have hneg := (div_lt_iff₀ hlen).mp hbelow
    exact segmentPoints_isLeast_of_parameter le_rfl zero_le_one (add_sub_cancel _ _).symm
      (by linarith) (by linarith)
  · have hpast := (lt_div_iff₀ hlen).mp habove
    exact segmentPoints_isLeast_of_parameter zero_le_one le_rfl (add_sub_cancel _ _).symm
      (by linarith) (by linarith)
  · exact segmentPoints_isLeast_of_parameter (not_lt.mp hbelow) (not_lt.mp habove) (d := 0)
      (by rw [div_mul_cancel₀ _ hlen.ne', add_zero]) (by linarith) (by linarith)

theorem clampUnit_of_nonpos {t : ℝ} (h : t ≤ 0) : clampUnit t = 0 := by
  rcases h.lt_or_eq with hlt | rfl
  · exact if_pos hlt
  · simp [clampUnit]

theorem clampUnit_of_one_le {t : ℝ} (h : 1 ≤ t) : clampUnit t = 1 := by
  rw [clampUnit, if_neg (zero_lt_one.trans_le h).not_gt]
  rcases h.lt_or_eq with hlt | rfl
  · exact if_pos hlt
  · simp

/-- The two ways to measure the distance to a segment differ only if it is degenerate. -/
theorem searchDistance2_eq (p : Point ℝ) (h : 1e-30 < (b - a).norm2) :
    searchDistance2 p a b = segmentDistance2 p a b := by
  have hparameter : segmentParameter p a b = some ((p - a).dot (b - a) / (b - a).norm2) :=
    if_neg h.not_ge
  have hstart : a + (b - a).scale 0 = a := by refine Point.ext ?_ ?_ ?_ <;> simp
  have hstop : a + (b - a).scale 1 = b := by refine Point.ext ?_ ?_ ?_ <;> simp
  rw [segmentDistance2, closestOnSegment, hparameter, searchDistance2]
  show _ = p.distance2 (a + (b - a).scale (clampUnit _))
  generalize (p - a).dot (b - a) / (b - a).norm2 = s
  rcases le_or_gt s 0 with hbelow | hbelow
  · rw [if_neg fun hin => hin.1.not_ge hbelow, if_pos hbelow, clampUnit_of_nonpos hbelow, hstart]
  · rcases le_or_gt 1 s with habove | habove
    · rw [if_neg fun hin => hin.2.not_ge habove, if_neg hbelow.not_ge, clampUnit_of_one_le habove,
        hstop]
    · rw [if_pos ⟨hbelow, habove⟩, clampUnit, if_neg hbelow.not_gt, if_neg habove.not_gt]

/-- The distances to a triangle with an area and to a segment with a length are the least distances
to any of their points, and the first does not depend on the order of the corners. -/
theorem distance2_isLeast :
    (∀ p a b c : Point ℝ, 1e-30 < ((b - a).cross (c - a)).norm2 →
      IsLeast (p.distance2 '' trianglePoints a b c) (triangleDistance2 p a b c) ∧
      ∀ u v w : Point ℝ, [u, v, w].Perm [a, b, c] →
        triangleDistance2 p u v w = triangleDistance2 p a b c) ∧
    ∀ p a b : Point ℝ, 1e-30 < (b - a).norm2 →
      IsLeast (p.distance2 '' segmentPoints a b) (segmentDistance2 p a b) := by
  refine ⟨fun p a b c h => ⟨closestOnTriangle_isLeast p h, fun u v w hperm => ?_⟩,
    fun p a b h => closestOnSegment_isLeast p h⟩
  have hleast := closestOnTriangle_isLeast p (h.trans_eq (gram_perm hperm).symm)
  rw [trianglePoints_perm hperm] at hleast
  exact hleast.unique (closestOnTriangle_isLeast p h)

/-- An obtuse corner at the origin, and a point beyond one of its sides that is closest to the
other: the search must pass the first side by. -/
theorem distance2_isLeast_obtuse :
    let p : Point ℝ := ⟨-2, -1, 0⟩
    let a : Point ℝ := ⟨0, 0, 0⟩
    let b : Point ℝ := ⟨1, 0, 0⟩
    let c : Point ℝ := ⟨-1, 1, 0⟩
    inward p a b c < 0 ∧ IsLeast (p.distance2 '' trianglePoints a b c) (9 / 2) ∧
      triangleDistance2 p c a b = 9 / 2 ∧
      IsLeast (p.distance2 '' segmentPoints a c) (9 / 2) := by
  intro p a b c
  have harea : 1e-30 < ((b - a).cross (c - a)).norm2 := by
    norm_num [cross, norm2, dot_eq, a, b, c]
  have hlength : 1e-30 < (c - a).norm2 := by norm_num [norm2, dot_eq, a, c]
  have htriangle : triangleDistance2 p a b c = 9 / 2 := by
    norm_num [triangleDistance2, closestOnTriangle, distance2, norm2, dot_eq, p, a, b, c]
  have hsegment : segmentDistance2 p a c = 9 / 2 := by
    norm_num [segmentDistance2, closestOnSegment, segmentParameter, clampUnit, degenerate,
      distance2, norm2, dot_eq, p, a, c]
  obtain ⟨htri, hseg⟩ := distance2_isLeast
  obtain ⟨hleast, horder⟩ := htri p a b c harea
  refine ⟨?_, htriangle ▸ hleast, ?_, hsegment ▸ hseg p a c hlength⟩
  · norm_num [inward, norm2, dot_eq, p, a, b, c]
  · exact (horder c a b (perm_rotate c a b).symm).trans htriangle

end Geometry

end Cosimulation

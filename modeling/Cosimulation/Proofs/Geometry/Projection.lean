import Cosimulation.Proofs.Geometry.Distance

/-!
# Orthogonal projections

The projection of a point onto a line or a plane is the point there from which the way back is at
right angles to it (`IsProjection`). There is one at most, and it is closest among all points of the
line or plane, hence among those of any figure in it that contains the projection
(`IsProjection.isLeast`).

The weights that are computed for a segment or a triangle, where they are not refused, are those of
the projection (`isProjection_line`, `isProjection_plane`). For a triangle they are quotients of the
areas that `inward` measures by the Gram determinant (`barycentric_eq`). Corners that are not
degenerate determine the weights of a point, so that a point of the line or plane lies in the
segment or triangle exactly if none of its weights is negative (`mem_segmentPoints_iff`,
`mem_trianglePoints_iff`).
-/

namespace Cosimulation.Geometry

open Point

variable {p q a b c x : Point ℝ} {s : Set (Point ℝ)} {t u v w : ℝ}

/-! ### Lines and planes -/

/-- The points of the line through `a` and `b`: their affine combinations. -/
def linePoints (a b : Point ℝ) : Set (Point ℝ) :=
  {x | ∃ u v : ℝ, u + v = 1 ∧ x = a.scale u + b.scale v}

/-- The points of the plane through `a`, `b` and `c`: their affine combinations. -/
def planePoints (a b c : Point ℝ) : Set (Point ℝ) :=
  {x | ∃ u v w : ℝ, u + v + w = 1 ∧ x = a.scale u + b.scale v + c.scale w}

theorem segmentPoints_subset (a b : Point ℝ) : segmentPoints a b ⊆ linePoints a b := by
  rintro x ⟨u, v, -, -, h, rfl⟩
  exact ⟨u, v, h, rfl⟩

theorem trianglePoints_subset (a b c : Point ℝ) : trianglePoints a b c ⊆ planePoints a b c := by
  rintro x ⟨u, v, w, -, -, -, h, rfl⟩
  exact ⟨u, v, w, h, rfl⟩

/-- The point `q` is the orthogonal projection of `p` onto a line or plane. -/
structure IsProjection (p q : Point ℝ) (s : Set (Point ℝ)) : Prop where
  mem : q ∈ s
  normal : ∀ x ∈ s, (p - q).dot (x - q) = 0

theorem IsProjection.unique {q' : Point ℝ} (h : IsProjection p q s) (h' : IsProjection p q' s) :
    q = q' := by
  have hthere := h.normal q' h'.mem
  have hback := h'.normal q h.mem
  have hsq : (q' - q).norm2 = (p - q).dot (q' - q) + (p - q').dot (q - q') := by
    simp only [norm2, dot_eq, sub_x, sub_y, sub_z]
    ring
  rw [hthere, hback, add_zero] at hsq
  exact norm2_sub_eq_zero_iff.mp hsq

/-- The projection is the closest point of every part of the line or plane that it lies in. -/
theorem IsProjection.isLeast {r : Set (Point ℝ)} (h : IsProjection p q s) (hr : r ⊆ s)
    (hq : q ∈ r) : IsLeast (p.distance2 '' r) (p.distance2 q) :=
  isLeast_of_behind hq fun x hx => (h.normal x (hr hx)).le

/-! ### The line through a segment -/

theorem segmentParameter_eq (p a b : Point ℝ) : segmentParameter p a b =
    if (b - a).norm2 ≤ 1e-30 then none else some ((p - a).dot (b - a) / (b - a).norm2) := rfl

theorem isProjection_line (hlen : (b - a).norm2 ≠ 0)
    (ht : t = (p - a).dot (b - a) / (b - a).norm2) :
    IsProjection p (a.scale (1 - t) + b.scale t) (linePoints a b) where
  mem := ⟨1 - t, t, by ring, rfl⟩
  normal := by
    rintro x ⟨u, v, huv, rfl⟩
    have hfoot : t * (b - a).norm2 = (p - a).dot (b - a) := by rw [ht, div_mul_cancel₀ _ hlen]
    calc (p - (a.scale (1 - t) + b.scale t)).dot
          (a.scale u + b.scale v - (a.scale (1 - t) + b.scale t))
        = (v - t) * ((p - a).dot (b - a) - t * (b - a).norm2) := by
          obtain rfl : u = 1 - v := by linarith
          simp only [norm2, dot_eq, sub_x, sub_y, sub_z, add_x, add_y, add_z, scale_x, scale_y,
            scale_z]
          ring
      _ = 0 := by rw [hfoot, sub_self, mul_zero]

theorem mem_segmentPoints_iff (hlen : (b - a).norm2 ≠ 0) :
    a.scale (1 - t) + b.scale t ∈ segmentPoints a b ↔ 0 ≤ 1 - t ∧ 0 ≤ t := by
  refine ⟨?_, fun ⟨hu, hv⟩ => ⟨1 - t, t, hu, hv, by ring, rfl⟩⟩
  rintro ⟨u, v, hu, hv, huv, heq⟩
  have hcoordinate (r : ℝ) :
      (a.scale (1 - r) + b.scale r - a).dot (b - a) = r * (b - a).norm2 := by
    simp only [norm2, dot_eq, sub_x, sub_y, sub_z, add_x, add_y, add_z, scale_x, scale_y, scale_z]
    ring
  obtain rfl : u = 1 - v := by linarith
  obtain rfl : t = v := by
    have := hcoordinate t
    rw [heq, hcoordinate v] at this
    exact (mul_right_cancel₀ hlen this).symm
  exact ⟨hu, hv⟩

/-! ### The plane through a triangle -/

theorem barycentric_eq (p a b c : Point ℝ) : barycentric p a b c =
    if gram a b c ≤ 1e-30 then none
    else some (inward p b c a / gram a b c, inward p c a b / gram a b c,
      inward p a b c / gram a b c) := by
  have harea : (b - a).dot (b - a) * (c - a).dot (c - a) - (b - a).dot (c - a) * (b - a).dot (c - a)
      = gram a b c := (gram_eq a b c).symm
  have habs : Scalar.abs (gram a b c) = gram a b c := abs_of_nonneg (norm2_nonneg _)
  have hv : (c - a).dot (c - a) * (p - a).dot (b - a) - (b - a).dot (c - a) * (p - a).dot (c - a)
      = inward p c a b := by
    rw [inward_second, norm2, dot_comm (p - a), dot_comm (p - a)]
  have hw : (b - a).dot (b - a) * (p - a).dot (c - a) - (b - a).dot (c - a) * (p - a).dot (b - a)
      = inward p a b c := by
    rw [inward, norm2, dot_comm (p - a), dot_comm (p - a)]
  unfold barycentric
  dsimp only
  rw [harea, habs, hv, hw]
  by_cases h : gram a b c ≤ 1e-30
  · rw [if_pos h]
    exact if_pos h
  · have hne : gram a b c ≠ 0 := fun h0 => h (h0.trans_le (by norm_num))
    have hu : 1 - inward p c a b / gram a b c - inward p a b c / gram a b c
        = inward p b c a / gram a b c := by
      rw [eq_div_iff hne, sub_mul, sub_mul, div_mul_cancel₀ _ hne, div_mul_cancel₀ _ hne]
      linarith [inward_sum p a b c]
    rw [if_neg h, hu]
    exact if_neg h

theorem isProjection_plane (harea : gram a b c ≠ 0)
    (hu : u = inward p b c a / gram a b c) (hv : v = inward p c a b / gram a b c)
    (hw : w = inward p a b c / gram a b c) :
    IsProjection p (a.scale u + b.scale v + c.scale w) (planePoints a b c) := by
  have hsum : u + v + w = 1 := by
    rw [hu, hv, hw, ← add_div, ← add_div, inward_sum, div_self harea]
  obtain ⟨hb, hc⟩ := cramer p harea
  rw [← hv, ← hw] at hb hc
  refine ⟨⟨u, v, w, hsum, rfl⟩, ?_⟩
  rintro x ⟨u', v', w', hsum', rfl⟩
  obtain rfl : u = 1 - v - w := by linarith
  obtain rfl : u' = 1 - v' - w' := by linarith
  calc (p - (a.scale (1 - v - w) + b.scale v + c.scale w)).dot
        (a.scale (1 - v' - w') + b.scale v' + c.scale w'
          - (a.scale (1 - v - w) + b.scale v + c.scale w))
      = (v' - v) * ((b - a).dot (p - a) - (v * (b - a).norm2 + w * (b - a).dot (c - a)))
        + (w' - w) * ((c - a).dot (p - a) - (v * (b - a).dot (c - a) + w * (c - a).norm2)) := by
        simp only [norm2, dot_eq, sub_x, sub_y, sub_z, add_x, add_y, add_z, scale_x, scale_y,
          scale_z]
        ring
    _ = 0 := by rw [← hb, ← hc, sub_self, sub_self, mul_zero, mul_zero, add_zero]

/-- The weight of the last corner is read off a point of the plane. -/
theorem inward_combination (h : u + v + w = 1) :
    inward (a.scale u + b.scale v + c.scale w) a b c = w * gram a b c := by
  obtain rfl : u = 1 - v - w := by linarith
  rw [gram_eq]
  simp only [inward, norm2, dot_eq, sub_x, sub_y, sub_z, add_x, add_y, add_z, scale_x, scale_y,
    scale_z]
  ring

theorem mem_trianglePoints_iff (harea : gram a b c ≠ 0) (h : u + v + w = 1) :
    a.scale u + b.scale v + c.scale w ∈ trianglePoints a b c ↔ 0 ≤ u ∧ 0 ≤ v ∧ 0 ≤ w := by
  refine ⟨?_, fun ⟨hu, hv, hw⟩ => ⟨u, v, w, hu, hv, hw, h, rfl⟩⟩
  rintro ⟨u', v', w', hu', hv', hw', h', heq⟩
  have hrotate (u v w : ℝ) :
      a.scale u + b.scale v + c.scale w = c.scale w + a.scale u + b.scale v := by
    refine Point.ext ?_ ?_ ?_ <;> simp <;> ring
  obtain rfl : w = w' := by
    refine mul_right_cancel₀ harea ?_
    rw [← inward_combination h, heq, inward_combination h']
  obtain rfl : v = v' := by
    refine mul_right_cancel₀ ((gram_perm (perm_rotate c a b).symm).trans_ne harea) ?_
    rw [← inward_combination (by linarith : w + u + v = 1), ← hrotate, heq, hrotate,
      inward_combination (by linarith)]
  obtain rfl : u = u' := by linarith
  exact ⟨hu', hv', hw'⟩

end Cosimulation.Geometry

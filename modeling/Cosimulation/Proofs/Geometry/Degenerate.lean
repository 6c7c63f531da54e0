import Cosimulation.Proofs.Exact.Partial
import Cosimulation.Proofs.Geometry.Distance

/-!
# Triangles without an area

The corners of a triangle may lie on a line, and any of them may coincide. The regions that the
search for the closest point asks about leave nothing out then (`around_of_cross`), so it never gets
to the inside, where there is no area to divide by, nor to the comparison of the sides that is meant
for this case. What it finds beside a side is the closest point as long as that side has a length.

A side without a length is no obstacle if one of the sides before it has one: the point is before a
corner or beside that earlier side (`ne_of_not_beside`). The first side that is asked about has no
such side before it. If its two corners coincide, a point on the side of the third corner is not
before them, and it is found to be beside them (`Overlooked`).

Read over `PartialReal`, the search divides zero by zero there, and nowhere else, whatever the
triangle looks like (`closestOnTriangle_overlooked`, `closestOnTriangle_real`).
-/

namespace Cosimulation.Geometry

open Point PartialReal

variable {p a b c : Point ℝ}

/-! ### The sides -/

/-- A segment is divided by only if it has a length. -/
theorem segmentParameter_real (p a b : Point ℝ) :
    segmentParameter p.real a.real b.real = (segmentParameter p a b).map PartialReal.real := by
  have hguard : (b.real - a.real).norm2 ≤ degenerate ↔ (b - a).norm2 ≤ degenerate := Iff.rfl
  unfold segmentParameter
  dsimp only
  by_cases h : (b - a).norm2 ≤ degenerate
  · rw [if_pos h, if_pos (hguard.mpr h)]
    rfl
  · have hlen : (b - a).norm2 ≠ 0 := fun h0 => h (h0.trans_le (by norm_num [degenerate]))
    rw [if_neg h, if_neg (mt hguard.mp h)]
    exact congrArg some (real_div hlen)

theorem clampUnit_real (t : ℝ) : clampUnit (PartialReal.real t) = .real (clampUnit t) := by
  unfold clampUnit
  rw [zero_eq, one_eq, apply_ite PartialReal.real, apply_ite PartialReal.real]
  exact if_congr (real_lt _ _) rfl (if_congr (real_lt _ _) rfl rfl)

theorem closestOnSegment_real (p a b : Point ℝ) :
    closestOnSegment p.real a.real b.real = (closestOnSegment p a b).real := by
  unfold closestOnSegment
  rw [segmentParameter_real]
  cases segmentParameter p a b with
  | none => rfl
  | some t =>
    show a.real + (b.real - a.real).scale (clampUnit (PartialReal.real t)) = _
    rw [clampUnit_real]
    rfl

theorem closestOnSides_real (p a b c : Point ℝ) :
    closestOnSides p.real a.real b.real c.real = (closestOnSides p a b c).real := by
  have hnearer (q r : Point ℝ) :
      (if Scalar.rank (p.real.distance2 r.real) (p.real.distance2 q.real) = .lt then r.real
        else q.real) = (if Scalar.rank (p.distance2 r) (p.distance2 q) = .lt then r else q).real :=
    (apply_ite Point.real _ r q).symm
  unfold closestOnSides
  dsimp only
  simp only [closestOnSegment_real, hnearer]

/-! ### Sides without a length -/

theorem norm2_sub_pos (h : a ≠ b) : 0 < (b - a).norm2 :=
  (norm2_nonneg _).lt_of_ne fun h0 => h (norm2_sub_eq_zero_iff.mp h0.symm)

/-- The point lies on the side of `c` of two corners that coincide. -/
def Overlooked (p a b c : Point ℝ) : Prop := a = b ∧ 0 < (c - a).dot (p - a)

theorem sub_self_dot (a d : Point ℝ) : (a - a).dot d = 0 := by
  simp [dot_eq]

theorem ne_of_not_overlooked (h : ¬ Overlooked p a b c) (hA : ¬ BeforeCorner p a b c) :
    a ≠ b := by
  rintro rfl
  exact hA ⟨(sub_self_dot _ _).le, not_lt.mp fun hpos => h ⟨rfl, hpos⟩⟩

/-- The two other sides are reached only if they have a length: if `c` is one of the ends of `ab`, a
point that is not before an end is beside `ab`. -/
theorem ne_of_not_beside (hA : ¬ BeforeCorner p a b c) (hB : ¬ BeforeCorner p b c a)
    (hAB : ¬ BesideSide p a b c) : a ≠ c ∧ b ≠ c := by
  have hbeside (hout : inward p a b c = 0) : ¬ (0 < (b - a).dot (p - a) ∧
      0 < (a - b).dot (p - b)) := fun h => hAB ⟨hout.le, h.1.le, h.2.le⟩
  constructor
  · rintro rfl
    refine hbeside ?_ ⟨not_le.mp fun hle => hA ⟨hle, (sub_self_dot _ _).le⟩,
      not_le.mp fun hle => hB ⟨hle, hle⟩⟩
    simp only [inward, dot_comm _ (a - a), sub_self_dot, mul_zero, zero_mul, sub_self]
  · rintro rfl
    refine hbeside ?_ ⟨not_le.mp fun hle => hA ⟨hle, hle⟩,
      not_le.mp fun hle => hB ⟨(sub_self_dot _ _).le, hle⟩⟩
    exact sub_self _

/-! ### The walk over partial numbers -/

theorem along_real {s t : ℝ} (a d : Point ℝ) (ht : t ≠ 0) :
    a.real + d.real.scale (.real s / .real t) = (a + d.scale (s / t)).real :=
  congrArg (fun r => a.real + d.real.scale r) (real_div ht)

theorem inside_real {v w t : ℝ} (a d e : Point ℝ) (ht : ¬ Scalar.abs t ≤ degenerate) :
    a.real + d.real.scale (.real v / .real t) + e.real.scale (.real w / .real t) =
      (a + d.scale (v / t) + e.scale (w / t)).real := by
  have hne : t ≠ 0 := by
    rintro rfl
    refine ht (abs_zero.trans_le ?_)
    norm_num [degenerate]
  rw [along_real a d hne]
  exact along_real _ e hne

/-- Unless the point is overlooked, the search divides by numbers other than zero. -/
theorem closestOnTriangle_real (h : ¬ Overlooked p a b c) :
    closestOnTriangle p.real a.real b.real c.real = (closestOnTriangle p a b c).real := by
  unfold closestOnTriangle
  dsimp only
  simp only [apply_ite Point.real]
  refine ite_congr rfl (fun _ => rfl) fun hA => ite_congr rfl (fun _ => rfl) fun hB =>
    ite_congr rfl (fun _ => ?ab) fun hAB => ite_congr rfl (fun _ => rfl) fun _ =>
    ite_congr rfl (fun _ => ?ac) fun _ => ite_congr rfl (fun _ => ?bc) fun _ =>
    ite_congr rfl (fun _ => closestOnSides_real p a b c) fun harea =>
      inside_real a (b - a) (c - a) harea
  case ab =>
    have hlen : (b - a).dot (p - a) - (b - a).dot (p - b) ≠ 0 := by
      rw [← norm2_eq_dot_sub, Ne, norm2_sub_eq_zero_iff]
      exact ne_of_not_overlooked h hA
    exact along_real a (b - a) hlen
  case ac =>
    have hlen : (c - a).dot (p - a) - (c - a).dot (p - c) ≠ 0 := by
      rw [← norm2_eq_dot_sub, Ne, norm2_sub_eq_zero_iff]
      exact (ne_of_not_beside hA (mt beforeCorner_iff.mp hB)
        (by rwa [besideSide_iff, inward_eq])).1
    exact along_real a (c - a) hlen
  case bc =>
    have hlen : (c - a).dot (p - b) - (b - a).dot (p - b) +
        ((b - a).dot (p - c) - (c - a).dot (p - c)) ≠ 0 := by
      rw [← dot_opposite, ← neg_sub ((c - a).dot (p - c)), ← dot_opposite, ← sub_eq_add_neg,
        ← norm2_eq_dot_sub, Ne, norm2_sub_eq_zero_iff]
      exact (ne_of_not_beside hA (mt beforeCorner_iff.mp hB)
        (by rwa [besideSide_iff, inward_eq])).2
    exact along_real b (c - b) hlen

/-- A point that is overlooked is taken to be beside the side that has no length. -/
theorem closestOnTriangle_overlooked (h : Overlooked p a b c) :
    closestOnTriangle p.real a.real b.real c.real = .undefined := by
  obtain ⟨rfl, hpos⟩ := h
  have hzero : (a.real - a.real).dot (p.real - a.real) = 0 :=
    congrArg PartialReal.real (sub_self_dot a (p - a))
  have habove : ¬ (c.real - a.real).dot (p.real - a.real) ≤ 0 := fun hle =>
    hpos.not_ge ((real_le _ _).mp hle)
  have hside : (0 : PartialReal) * (c.real - a.real).dot (p.real - a.real) -
      0 * (c.real - a.real).dot (p.real - a.real) ≤ 0 := (real_le _ _).mpr (by simp)
  have hrefl : (0 : PartialReal) ≤ 0 := (real_le _ _).mpr le_rfl
  unfold closestOnTriangle
  dsimp only
  rw [hzero, if_neg fun hA => habove hA.2, if_neg fun hB => habove hB.2,
    if_pos ⟨hside, hrefl, hrefl⟩]
  show a.real + (a - a).real.scale (.real 0 / .real (0 - 0)) = _
  rw [sub_zero, real_div_zero]
  rfl

/-! ### The closest point -/

theorem inward_eq_dot_cross (p a b c : Point ℝ) :
    inward p a b c = ((b - a).cross (c - a)).dot ((b - a).cross (p - a)) := by
  simp only [inward, cross, norm2, dot_eq, sub_x, sub_y, sub_z]
  ring

/-- The regions of corners and sides leave nothing out if the corners lie on a line and the first
two differ. -/
theorem around_of_cross (hne : a ≠ b) (h : (b - a).cross (c - a) = .origin) (p : Point ℝ) :
    Around p a b c := by
  refine around_of_outward (norm2_sub_pos hne) ?_
  rw [inward_eq_dot_cross, h]
  simp [Point.origin, dot_eq]

/-- What the search finds on corners of a line is closest, unless the point is overlooked. -/
theorem closestOnTriangle_isLeast_of_cross (h : (b - a).cross (c - a) = .origin)
    (hp : ¬ Overlooked p a b c) :
    IsLeast (p.distance2 '' trianglePoints a b c) (triangleDistance2 p a b c) := by
  have hcorner {u v w : Point ℝ} (hperm : [u, v, w].Perm [a, b, c])
      (hcorner : BeforeCorner p u v w) :
      IsLeast (p.distance2 '' trianglePoints a b c) (p.distance2 u) :=
    trianglePoints_perm hperm ▸ hcorner.isLeast
  have hside {u v w : Point ℝ} (hperm : [u, v, w].Perm [a, b, c]) (hne : u ≠ v)
      (hside : BesideSide p u v w) :
      IsLeast (p.distance2 '' trianglePoints a b c) (p.distance2 (foot p u v)) :=
    trianglePoints_perm hperm ▸ hside.isLeast (norm2_sub_pos hne)
  have hleft (h1 : ¬ BeforeCorner p a b c) : Around p a b c :=
    around_of_cross (ne_of_not_overlooked hp h1) h p
  rw [triangleDistance2, closestOnTriangle_eq]
  split_ifs with h1 h2 h3 h4 h5 h6 h7
  · exact hcorner (.refl _) h1
  · exact hcorner (perm_rotate a b c) h2
  · exact hside (.refl _) (ne_of_not_overlooked hp h1) h3
  · exact hcorner (perm_rotate c a b).symm h4
  · exact hside ((perm_rotate b a c).trans (perm_swap a b c)) (ne_of_not_beside h1 h2 h3).1 h5
  · exact hside (perm_rotate a b c) (ne_of_not_beside h1 h2 h3).2 h6
  all_goals
    exact absurd (hleft h1) fun hp => hp.cases.elim
      (fun hc => hc.elim h1 fun hc => hc.elim h2 h4) fun hs => hs.elim h3 fun hs => hs.elim h5 h6

/-- On a triangle whose corners lie on a line, the search divides by zero exactly if the first two
corners coincide and the point is on the side of the third; otherwise the distance is the least of
those to the convex combinations of the corners. -/
theorem triangleDistance2_degenerate (p : Point ℝ) (h : (b - a).cross (c - a) = .origin) :
    (a = b ∧ 0 < (c - a).dot (p - a) →
      triangleDistance2 p.real a.real b.real c.real = .undefined) ∧
    (¬ (a = b ∧ 0 < (c - a).dot (p - a)) → ∃ d,
      triangleDistance2 p.real a.real b.real c.real = .real d ∧
      IsLeast (p.distance2 '' trianglePoints a b c) d) := by
  constructor
  · intro hp
    rw [triangleDistance2, closestOnTriangle_overlooked hp, distance2_undefined]
  · intro hp
    refine ⟨triangleDistance2 p a b c, ?_, closestOnTriangle_isLeast_of_cross h hp⟩
    rw [triangleDistance2, closestOnTriangle_real hp]
    rfl

/-- A triangle with two corners at the origin, and a point above its middle: the distance is
undefined if those two come first, and is found if the third comes between them. -/
theorem triangleDistance2_degenerate_doubled :
    let p : Point ℝ := ⟨1 / 2, 1 / 2, 0⟩
    let a : Point ℝ := ⟨0, 0, 0⟩
    let c : Point ℝ := ⟨1, 0, 0⟩
    triangleDistance2 p.real a.real a.real c.real = .undefined ∧
      triangleDistance2 p.real a.real c.real a.real = .real (1 / 4) ∧
      IsLeast (p.distance2 '' trianglePoints a a c) (1 / 4) := by
  intro p a c
  have hfirst : (a - a).cross (c - a) = .origin := by norm_num [cross, Point.origin, a, c]
  have hsecond : (c - a).cross (a - a) = .origin := by norm_num [cross, Point.origin, a, c]
  have hpast : a = a ∧ 0 < (c - a).dot (p - a) := ⟨rfl, by norm_num [dot_eq, p, a, c]⟩
  have hne : ¬ (a = c ∧ 0 < (a - a).dot (p - a)) := fun h => zero_ne_one (congrArg Point.x h.1)
  have hquarter : triangleDistance2 p a c a = 1 / 4 := by
    norm_num [triangleDistance2, closestOnTriangle, distance2, norm2, dot_eq, p, a, c]
  have hfound : triangleDistance2 p.real a.real c.real a.real = .real (1 / 4) := by
    rw [← hquarter, triangleDistance2, closestOnTriangle_real hne]
    rfl
  obtain ⟨d, hd, hleast⟩ := (triangleDistance2_degenerate p hsecond).2 hne
  obtain rfl : (1 / 4 : ℝ) = d := PartialReal.real.inj (hfound.symm.trans hd)
  rw [trianglePoints_perm (.cons a (.swap a c []))] at hleast
  exact ⟨(triangleDistance2_degenerate p hfirst).1 hpast, hfound, hleast⟩

end Cosimulation.Geometry

import Cosimulation.Geometry.Box
import Cosimulation.Proofs.Geometry.Distance
import Cosimulation.Proofs.Scalar.Comparison

/-!
# Boxes

What a box is asked is asked of each axis by itself (`contains_iff`, `intersects_iff`). A box is in
order if its lower corner does not exceed the upper one along any axis; then its envelope contains
the same points. A box that is not in order contains no point, whereas its envelope is the box with
the corners put in order.

A box is put in order by a point that it grows to, and stays in order if it only grows
(`ordered_afterAll`). It is turned inside out by a negative radius (`ordered_enclosing_iff`), or by
a negative margin that takes away more than there is (`ordered_expand_iff`).

Over real numbers, boxes are ordered by which of them lies in which, and the box grown to another
one is the least that both lie in. Growing over some points gives the least box over them, in
whatever order the points come (`ofPoints?_spans`, `ofPoints?_merge`).
-/

namespace Cosimulation

/-- The axes of space. -/
inductive Axis where
  | x
  | y
  | z

namespace Point

variable {α : Type} {p q : Point α} {f : α → α → α} {r : α → α → Bool}

/-- The coordinate along an axis. -/
def along (p : Point α) : Axis → α
  | .x => p.x
  | .y => p.y
  | .z => p.z

theorem ext_along (h : ∀ a, p.along a = q.along a) : p = q := Point.ext (h .x) (h .y) (h .z)

theorem along_zipWith (a : Axis) : (p.zipWith f q).along a = f (p.along a) (q.along a) := by
  cases a <;> rfl

theorem all₂_iff : p.all₂ r q = true ↔ ∀ a, r (p.along a) (q.along a) = true := by
  simp only [all₂, Bool.and_eq_true, and_assoc]
  exact ⟨fun h a => by cases a; exacts [h.1, h.2.1, h.2.2], fun h => ⟨h .x, h .y, h .z⟩⟩

end Point

namespace Box

variable {α : Type} [Scalar α] {b c : Box α} {p : Point α}

theorem contains_iff : b.contains p = true ↔
    ∀ a, b.lower.along a ≤ p.along a ∧ p.along a ≤ b.upper.along a := by
  rw [contains, Bool.and_eq_true, Point.all₂_iff, Point.all₂_iff, ← forall_and]
  simp only [decide_eq_true_eq]

theorem intersects_iff : b.intersects c = true ↔
    ∀ a, b.lower.along a ≤ c.upper.along a ∧ c.lower.along a ≤ b.upper.along a := by
  rw [intersects, Bool.and_eq_true, Point.all₂_iff, Point.all₂_iff, ← forall_and]
  simp only [decide_eq_true_eq]

/-- The lower corner does not exceed the upper one. -/
def Ordered (b : Box α) : Prop := ∀ a, b.lower.along a ≤ b.upper.along a

/-- What may be done to a box. -/
inductive Step (α : Type) where
  | new (lower upper : Point α)
  | enclosing (center : Point α) (radius : α)
  | cover (p : Point α)
  | merge (other : Box α)
  | expand (margin : α)

/-- The box after a step. -/
def after (b : Box α) : Step α → Box α
  | .new lower upper => ⟨lower, upper⟩
  | .enclosing center radius => enclosing center radius
  | .cover p => b.cover p
  | .merge other => b.merge other
  | .expand margin => b.expand margin

/-- The box after several steps. -/
def afterAll (b : Box α) (steps : List (Step α)) : Box α := steps.foldl after b

/-- The step does not turn a box inside out that was in order. To grow never does. -/
def Step.Keeps (b : Box α) : Step α → Prop
  | .new lower upper => (⟨lower, upper⟩ : Box α).Ordered
  | .enclosing center radius => (Box.enclosing center radius).Ordered
  | .cover _ => True
  | .merge _ => True
  | .expand margin => b.Ordered → (b.expand margin).Ordered

/-- No step of a run turns the box inside out. -/
def KeepsAll : Box α → List (Step α) → Prop
  | _, [] => True
  | b, s :: steps => s.Keeps b ∧ (b.after s).KeepsAll steps

/-- The step leaves every box in order. -/
def Step.Orders : Step α → Prop
  | .new lower upper => (⟨lower, upper⟩ : Box α).Ordered
  | .enclosing center radius => (Box.enclosing center radius).Ordered
  | .cover p => (⟨p, p⟩ : Box α).Ordered
  | .merge other => other.Ordered
  | .expand _ => False

section
variable [LawfulComparison α]

open LawfulComparison Scalar

theorem ordered_of_contains (h : b.contains p = true) : b.Ordered := fun a =>
  le_trans (contains_iff.1 h a).1 (contains_iff.1 h a).2

/-- A box in order stays in order when it grows. -/
theorem Ordered.merge_left (h : b.Ordered) : (b.merge c).Ordered := by
  intro a
  obtain ⟨hlower, hupper⟩ := defined (h a)
  show (b.lower.zipWith smaller c.lower).along a ≤ (b.upper.zipWith larger c.upper).along a
  rw [Point.along_zipWith, Point.along_zipWith]
  exact le_trans (smaller_le_left hlower) (le_trans (h a) (le_larger_left hupper))

/-- A box that grows to one in order is put in order. -/
theorem Ordered.merge_right (h : c.Ordered) : (b.merge c).Ordered := by
  intro a
  obtain ⟨hlower, hupper⟩ := defined (h a)
  show (b.lower.zipWith smaller c.lower).along a ≤ (b.upper.zipWith larger c.upper).along a
  rw [Point.along_zipWith, Point.along_zipWith]
  exact le_trans (smaller_le_right hlower) (le_trans (h a) (le_larger_right hupper))

theorem Ordered.after (h : b.Ordered) {s : Step α} (hs : s.Keeps b) : (b.after s).Ordered := by
  cases s with
  | new lower upper => exact hs
  | enclosing center radius => exact hs
  | cover p => exact h.merge_left
  | merge other => exact h.merge_left
  | expand margin => exact hs h

theorem Step.Orders.after {s : Step α} (hs : s.Orders) (b : Box α) : (b.after s).Ordered := by
  cases s with
  | new lower upper => exact hs
  | enclosing center radius => exact hs
  | cover p => exact hs.merge_right
  | merge other => exact hs.merge_right
  | expand margin => exact hs.elim

/-- A box that was in order or has been put in order stays so as long as no step turns it inside
out. -/
theorem ordered_afterAll {steps : List (Step α)} (h : b.Ordered ∨ ∃ s ∈ steps, s.Orders)
    (hsteps : b.KeepsAll steps) : (b.afterAll steps).Ordered := by
  induction steps generalizing b with
  | nil => exact h.resolve_right nofun
  | cons s steps ih =>
    refine ih ?_ hsteps.2
    rcases h with hb | ⟨s', hs', horders⟩
    · exact .inl (hb.after hsteps.1)
    · rcases List.mem_cons.1 hs' with rfl | hlater
      · exact .inl (horders.after b)
      · exact .inr ⟨s', hlater, horders⟩

/-- The envelope of a box in order contains the points of the box. -/
theorem Ordered.contains_envelope_iff (h : b.Ordered) :
    b.envelope.contains p = true ↔ b.contains p = true := by
  rw [contains_iff, contains_iff]
  refine forall_congr' fun a => and_congr ?lower ?upper
  case lower =>
    rw [envelope, Point.along_zipWith]
    split
    next => exact Iff.rfl
    next hlt =>
      -- The two corners are level along the axis.
      have hge : b.upper.along a ≤ b.lower.along a := by
        by_contra hge
        exact hlt (lt_iff.2 ⟨h a, hge⟩)
      exact ⟨le_trans (h a), le_trans hge⟩
  case upper =>
    rw [envelope, Point.along_zipWith, if_neg fun hgt => (lt_iff.1 hgt).2 (h a)]

end

/-! ## The order of boxes over real numbers -/

theorem smaller_real (s t : ℝ) : Scalar.smaller s t = min s t := by
  unfold Scalar.smaller
  rcases lt_or_ge t s with h | h
  · rw [if_pos h, min_eq_right h.le]
  · rw [if_neg h.not_gt, if_pos (beq_self_eq_true s), min_eq_left h]

theorem larger_real (s t : ℝ) : Scalar.larger s t = max s t := by
  unfold Scalar.larger
  rcases lt_or_ge s t with h | h
  · rw [if_pos h, max_eq_right h.le]
  · rw [if_neg h.not_gt, if_pos (beq_self_eq_true s), max_eq_left h]

/-- A box is below those that it lies in. -/
instance : PartialOrder (Box ℝ) where
  le b c := ∀ a, c.lower.along a ≤ b.lower.along a ∧ b.upper.along a ≤ c.upper.along a
  le_refl _ _ := ⟨le_rfl, le_rfl⟩
  le_trans _ _ _ hbc hcd a := ⟨(hcd a).1.trans (hbc a).1, (hbc a).2.trans (hcd a).2⟩
  le_antisymm b c hbc hcb := by
    have hlower : b.lower = c.lower :=
      Point.ext_along fun a => le_antisymm (hcb a).1 (hbc a).1
    have hupper : b.upper = c.upper :=
      Point.ext_along fun a => le_antisymm (hbc a).2 (hcb a).2
    cases b
    cases c
    exact congrArg₂ _ hlower hupper

section
variable {b c d : Box ℝ} {p q : Point ℝ} {ps qs : List (Point ℝ)}

/-- A box contains a point if the box of that point alone lies in it. -/
theorem single_le_iff : (⟨p, p⟩ : Box ℝ) ≤ c ↔ c.contains p = true := contains_iff.symm

/-- The box grown to another one is the least that both lie in. -/
theorem merge_le_iff : b.merge c ≤ d ↔ b ≤ d ∧ c ≤ d := by
  have hmerge : b.merge c ≤ d ↔ ∀ a,
      d.lower.along a ≤ min (b.lower.along a) (c.lower.along a) ∧
        max (b.upper.along a) (c.upper.along a) ≤ d.upper.along a := by
    refine forall_congr' fun a => ?_
    rw [merge, Point.along_zipWith, Point.along_zipWith, smaller_real, larger_real]
  rw [hmerge]
  simp only [le_min_iff, max_le_iff]
  exact ⟨fun h => ⟨fun a => ⟨(h a).1.1, (h a).2.1⟩, fun a => ⟨(h a).1.2, (h a).2.2⟩⟩,
    fun h a => ⟨⟨(h.1 a).1, (h.2 a).1⟩, (h.1 a).2, (h.2 a).2⟩⟩

/-- The boxes that a box lies in are those that contain some points. -/
def Spans (ps : List (Point ℝ)) (b : Box ℝ) : Prop :=
  ∀ c, b ≤ c ↔ ∀ p ∈ ps, c.contains p = true

namespace Spans

theorem single (p : Point ℝ) : Spans [p] ⟨p, p⟩ := fun c => by
  rw [List.forall_mem_singleton, single_le_iff]

theorem merge (hb : Spans ps b) (hc : Spans qs c) : Spans (ps ++ qs) (b.merge c) := fun d => by
  rw [merge_le_iff, hb, hc, List.forall_mem_append]

theorem perm (h : Spans ps b) (hperm : ps.Perm qs) : Spans qs b := fun c => by
  rw [h]
  exact forall_congr' fun p => by rw [hperm.mem_iff]

theorem unique (hb : Spans ps b) (hc : Spans ps c) : b = c :=
  le_antisymm ((hb c).2 ((hc c).1 le_rfl)) ((hc b).2 ((hb b).1 le_rfl))

/-- A box that some points span is the least that contains them. -/
theorem isLeast (h : Spans ps b) : IsLeast {c : Box ℝ | ∀ p ∈ ps, c.contains p = true} b :=
  ⟨(h b).1 le_rfl, fun c hc => (h c).2 hc⟩

end Spans

/-- To grow over points one after the other is to grow over them all. -/
theorem Spans.foldl_cover (h : Spans ps b) (qs : List (Point ℝ)) :
    Spans (ps ++ qs) (qs.foldl cover b) := by
  induction qs generalizing ps b with
  | nil => rwa [List.append_nil]
  | cons q qs ih =>
    rw [List.append_cons]
    exact ih (h.merge (.single q))

/-- The least box over some points, if there are any. -/
theorem ofPoints?_spans (hps : ps ≠ []) : ∃ b, ofPoints? ps = some b ∧ Spans ps b := by
  cases ps with
  | nil => exact absurd rfl hps
  | cons p ps => exact ⟨_, rfl, (Spans.single p).foldl_cover ps⟩

/-- The least box over the points of two groups is the one over the boxes of the groups, however the
points are mixed. -/
theorem ofPoints?_merge {all : List (Point ℝ)} (hall : all.Perm (ps ++ qs)) (hps : ps ≠ [])
    (hqs : qs ≠ []) : ∃ b c, ofPoints? ps = some b ∧ ofPoints? qs = some c ∧
      ofPoints? all = some (b.merge c) := by
  obtain ⟨b, hb, hbspans⟩ := ofPoints?_spans hps
  obtain ⟨c, hc, hcspans⟩ := ofPoints?_spans hqs
  have hne : all ≠ [] := by
    rintro rfl
    exact hps (List.append_eq_nil_iff.1 hall.symm.eq_nil).1
  obtain ⟨d, hd, hdspans⟩ := ofPoints?_spans hne
  obtain rfl := (hdspans.perm hall).unique (hbspans.merge hcspans)
  exact ⟨b, c, hb, hc, hd⟩

/-! ## Boxes and distances -/

/-- The distance of two points is no less than their distance along an axis. -/
theorem abs_along_sub_le (p q : Point ℝ) (a : Axis) :
    |p.along a - q.along a| ≤ √(p.distance2 q) := by
  refine Real.abs_le_sqrt ?_
  have hx := mul_self_nonneg (p.x - q.x)
  have hy := mul_self_nonneg (p.y - q.y)
  have hz := mul_self_nonneg (p.z - q.z)
  simp only [Point.distance2, Point.norm2, Point.dot_eq, Point.sub_x, Point.sub_y, Point.sub_z]
  cases a <;> simp only [Point.along] <;> linarith

theorem along_enclosing (center : Point ℝ) (radius : ℝ) (a : Axis) :
    (enclosing center radius).lower.along a = center.along a - radius ∧
      (enclosing center radius).upper.along a = center.along a + radius := by
  cases a <;> exact ⟨rfl, rfl⟩

theorem along_expand (b : Box ℝ) (margin : ℝ) (a : Axis) :
    (b.expand margin).lower.along a = b.lower.along a - margin ∧
      (b.expand margin).upper.along a = b.upper.along a + margin := by
  cases a <;> exact ⟨rfl, rfl⟩

/-- The box around a ball is turned inside out by a negative radius. -/
theorem ordered_enclosing_iff {radius : ℝ} : (enclosing p radius).Ordered ↔ 0 ≤ radius := by
  have haxis (a : Axis) : (enclosing p radius).lower.along a ≤ (enclosing p radius).upper.along a ↔
      0 ≤ radius := by
    rw [(along_enclosing p radius a).1, (along_enclosing p radius a).2]
    constructor <;> intro h <;> linarith
  exact ⟨fun h => (haxis .x).1 (h .x), fun h a => (haxis a).2 h⟩

/-- A box is turned inside out by a negative margin that takes away more than there is. -/
theorem ordered_expand_iff {margin : ℝ} : (b.expand margin).Ordered ↔
    ∀ a, -(2 * margin) ≤ b.upper.along a - b.lower.along a := by
  refine forall_congr' fun a => ?_
  rw [(along_expand b margin a).1, (along_expand b margin a).2]
  constructor <;> intro h <;> linarith

/-- The box around a ball contains the ball. -/
theorem contains_enclosing {radius : ℝ} (h : √(p.distance2 q) ≤ radius) :
    (enclosing p radius).contains q = true := by
  refine contains_iff.2 fun a => ?_
  obtain ⟨hlower, hupper⟩ := along_enclosing p radius a
  obtain ⟨hneg, hpos⟩ := abs_le.1 ((abs_along_sub_le p q a).trans h)
  rw [hlower, hupper]
  exact ⟨by linarith, by linarith⟩

/-- Points of boxes that stay apart when one is enlarged are farther from each other than that. -/
theorem lt_distance_of_not_intersects {radius : ℝ} (hp : b.contains p = true)
    (hq : c.contains q = true) (h : (b.expand radius).intersects c = false) :
    radius < √(p.distance2 q) := by
  have hapart : ¬ ∀ a, (b.expand radius).lower.along a ≤ c.upper.along a ∧
      c.lower.along a ≤ (b.expand radius).upper.along a := fun hall =>
    Bool.false_ne_true (h.symm.trans (intersects_iff.2 hall))
  obtain ⟨a, ha⟩ := not_forall.1 hapart
  obtain ⟨hlower, hupper⟩ := along_expand b radius a
  obtain ⟨hpl, hpu⟩ := contains_iff.1 hp a
  obtain ⟨hql, hqu⟩ := contains_iff.1 hq a
  rw [hlower, hupper] at ha
  refine lt_of_lt_of_le ?_ (abs_along_sub_le p q a)
  rcases not_and_or.1 ha with hleft | hright
  · exact lt_of_lt_of_le (by linarith) (le_abs_self _)
  · exact lt_of_lt_of_le (by linarith) (neg_le_abs _)

end

end Box

end Cosimulation

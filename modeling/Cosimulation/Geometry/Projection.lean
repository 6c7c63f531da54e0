import Cosimulation.Geometry.Point

/-!
# Projections and distances

The orthogonal projection of a point onto the line through two points, or onto the plane through
three, is described by weights of those points that sum to one; the projection falls within the
segment or triangle exactly if no weight is negative. A segment or triangle that is too small to
divide by has no weights.

The distances are those to the segment and to the filled triangle. The closest point of a triangle
is found by asking in turn for each corner and each side whether the point lies in its part of
space; what remains projects into the interior. Corners on one line leave nothing to divide by
there, and the closest point of the three sides takes over.
-/

namespace Cosimulation.Geometry

variable {α : Type} [Scalar α]

/-- Squared lengths and areas up to this are not divided by. -/
def degenerate : α := 1e-30

/-- The parameter `t` for which `a + t (b - a)` is the projection of `p` onto the line. -/
def segmentParameter (p a b : Point α) : Option α :=
  let ab := b - a
  if ab.norm2 ≤ degenerate then none else some ((p - a).dot ab / ab.norm2)

/-- The weights of `a`, `b` and `c` that give the projection of `p` onto their plane. -/
def barycentric (p a b c : Point α) : Option (α × α × α) :=
  let ab := b - a
  let ac := c - a
  let ap := p - a
  let d00 := ab.dot ab
  let d01 := ab.dot ac
  let d11 := ac.dot ac
  let d20 := ap.dot ab
  let d21 := ap.dot ac
  let area := d00 * d11 - d01 * d01
  if Scalar.abs area ≤ degenerate then none
  else
    let v := (d11 * d20 - d01 * d21) / area
    let w := (d00 * d21 - d01 * d20) / area
    some (1 - v - w, v, w)

/-- The nearest number between zero and one. -/
def clampUnit (t : α) : α := if t < 0 then 0 else if t > 1 then 1 else t

/-- The point of the segment from `a` to `b` that is closest to `p`; the end `a` if the segment is
degenerate. -/
def closestOnSegment (p a b : Point α) : Point α :=
  let t := match segmentParameter p a b with
    | some t => clampUnit t
    | none => 0
  a + (b - a).scale t

/-- The squared distance from `p` to the segment from `a` to `b`. -/
def segmentDistance2 (p a b : Point α) : α := p.distance2 (closestOnSegment p a b)

/-- The point of the three sides that is closest to `p`, the side named first if several are. -/
def closestOnSides (p a b c : Point α) : Point α :=
  let nearer (q r : Point α) : Point α :=
    if Scalar.rank (p.distance2 r) (p.distance2 q) = .lt then r else q
  nearer (nearer (closestOnSegment p a b) (closestOnSegment p b c)) (closestOnSegment p c a)

/-- The point of the filled triangle that is closest to `p`. -/
def closestOnTriangle (p a b c : Point α) : Point α :=
  let ab := b - a
  let ac := c - a
  let ap := p - a
  let d1 := ab.dot ap
  let d2 := ac.dot ap
  if d1 ≤ 0 ∧ d2 ≤ 0 then a
  else
  let bp := p - b
  let d3 := ab.dot bp
  let d4 := ac.dot bp
  if 0 ≤ d3 ∧ d4 ≤ d3 then b
  else
  let vc := d1 * d4 - d3 * d2
  if vc ≤ 0 ∧ 0 ≤ d1 ∧ d3 ≤ 0 then a + ab.scale (d1 / (d1 - d3))
  else
  let cp := p - c
  let d5 := ab.dot cp
  let d6 := ac.dot cp
  if 0 ≤ d6 ∧ d5 ≤ d6 then c
  else
  let vb := d5 * d2 - d1 * d6
  if vb ≤ 0 ∧ 0 ≤ d2 ∧ d6 ≤ 0 then a + ac.scale (d2 / (d2 - d6))
  else
  let va := d3 * d6 - d5 * d4
  if va ≤ 0 ∧ 0 ≤ d4 - d3 ∧ 0 ≤ d5 - d6 then
    b + (c - b).scale ((d4 - d3) / ((d4 - d3) + (d5 - d6)))
  else
  let area := va + vb + vc
  if Scalar.abs area ≤ degenerate then closestOnSides p a b c
  else a + ab.scale (vb / area) + ac.scale (vc / area)

/-- The squared distance from `p` to the filled triangle. -/
def triangleDistance2 (p a b c : Point α) : α := p.distance2 (closestOnTriangle p a b c)

/-- The squared distance from `p` to a segment as the search for near segments measures it: the
projection is taken only strictly between the ends, and a segment of no length counts as its end
`b`. -/
def searchDistance2 (p a b : Point α) : α :=
  let s := (p - a).dot (b - a) / (b - a).norm2
  if 0 < s ∧ s < 1 then p.distance2 (a + (b - a).scale s)
  else if s ≤ 0 then p.distance2 a
  else p.distance2 b

end Cosimulation.Geometry

import Cosimulation.Geometry.Point

/-!
# Boxes

Axis-aligned boxes, given by a lower and an upper corner. Nothing keeps the corners in order: a box
whose lower corner exceeds the upper one in some coordinate contains no point. `Box.envelope` is the
box between the two corners, whichever is lower.
-/

namespace Cosimulation

/-- The box between two corners, bounds included. -/
structure Box (α : Type) where
  lower : Point α
  upper : Point α

namespace Box

variable {α : Type} [Scalar α]

/-- The box that holds only the origin. -/
def origin : Box α := ⟨.origin, .origin⟩

/-- The box around the ball of a radius. -/
def enclosing (center : Point α) (radius : α) : Box α :=
  let margin : Point α := ⟨radius, radius, radius⟩
  ⟨center - margin, center + margin⟩

/-- The least box over a box and another one. -/
def merge (b other : Box α) : Box α :=
  ⟨b.lower.zipWith Scalar.smaller other.lower, b.upper.zipWith Scalar.larger other.upper⟩

/-- The least box over a box and a point. -/
def cover (b : Box α) (p : Point α) : Box α := b.merge ⟨p, p⟩

/-- The least box over some points; `none` if there are none. -/
def ofPoints? : List (Point α) → Option (Box α)
  | [] => none
  | p :: ps => some (ps.foldl cover ⟨p, p⟩)

/-- Moves every face outwards. -/
def expand (b : Box α) (margin : α) : Box α :=
  let m : Point α := ⟨margin, margin, margin⟩
  ⟨b.lower - m, b.upper + m⟩

/-- Whether a point lies in the box or on its boundary. -/
def contains (b : Box α) (p : Point α) : Bool :=
  b.lower.all₂ (fun l x => l ≤ x) p && p.all₂ (fun x u => x ≤ u) b.upper

/-- Whether two boxes share a point; touching is enough. -/
def intersects (b other : Box α) : Bool :=
  b.lower.all₂ (fun l u => l ≤ u) other.upper && other.lower.all₂ (fun l u => l ≤ u) b.upper

/-- The box between the corners, each coordinate put in order. -/
def envelope (b : Box α) : Box α :=
  ⟨b.lower.zipWith (fun l u => if l < u then l else u) b.upper,
    b.lower.zipWith (fun l u => if l > u then l else u) b.upper⟩

end Box

end Cosimulation

import Cosimulation.Scalar

/-!
# Points

Points and displacements of three-dimensional space, as triples of scalars. Plane geometry is the
geometry of the points with `z = 0`.
-/

namespace Cosimulation

/-- A point, or the displacement between two points. -/
structure Point (α : Type) where
  x : α
  y : α
  z : α
  deriving Repr, DecidableEq

namespace Point

variable {α : Type} [Scalar α]

/-- The point with all coordinates zero. -/
def origin : Point α := ⟨0, 0, 0⟩

/-- Combines two points coordinate by coordinate. -/
def zipWith (f : α → α → α) (p q : Point α) : Point α := ⟨f p.x q.x, f p.y q.y, f p.z q.z⟩

/-- Whether a relation holds of every pair of coordinates. -/
def all₂ (f : α → α → Bool) (p q : Point α) : Bool := f p.x q.x && f p.y q.y && f p.z q.z

instance : Add (Point α) := ⟨zipWith (· + ·)⟩

instance : Sub (Point α) := ⟨zipWith (· - ·)⟩

/-- Every coordinate times `t`. -/
def scale (p : Point α) (t : α) : Point α := ⟨p.x * t, p.y * t, p.z * t⟩

/-- The inner product. -/
def dot (p q : Point α) : α := p.x * q.x + p.y * q.y + p.z * q.z

/-- The squared length. -/
def norm2 (p : Point α) : α := p.dot p

/-- The squared distance of two points. -/
def distance2 (p q : Point α) : α := (p - q).norm2

/-- The coordinates in order. -/
def toList (p : Point α) : List α := [p.x, p.y, p.z]

end Point

end Cosimulation

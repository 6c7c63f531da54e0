import Cosimulation.Double
import Cosimulation.Geometry.Box
import Cosimulation.Geometry.Projection

/-!
# Search trees

A search tree holds shapes under an index and answers which of them are nearest to a point. How a
tree is laid out is not modelled; what matters is the order in which it visits the shapes, and that
is left open (`SearchOrder`). All that is known of it is that it visits every shape and never goes
from a farther one to a nearer one (`LawfulSearchOrder`). Binary floating point is searched in the
order that goes by index among equally near shapes (`SearchOrder.byIndex`).

The answer ranks the first `k` shapes of the visit by distance and, where distances are equal, by
index (`Hit.ranked`).
-/

namespace Cosimulation.Search

/-- A shape that a query found, with its true distance. -/
structure Hit (α : Type) where
  index : Nat
  distance : α
  deriving Repr, DecidableEq

/-- Shapes under an index, in ascending order of the index. -/
structure Tree (σ : Type) where
  entries : List (Nat × σ)

/-- The ends of a segment. -/
abbrev Segment (α : Type) := Point α × Point α

/-- The corners of a filled triangle. -/
abbrev Corners (α : Type) := Point α × Point α × Point α

/-- The order in which search trees visit their shapes. -/
class SearchOrder (α : Type) where
  /-- The index of each shape with its squared distance, as the shapes are visited. -/
  visit {σ : Type} (entries : List (Nat × σ)) (distance2 : σ → α) : List (Nat × α)

/-- The shapes as they stand, each with its squared distance. -/
def measured {α σ : Type} (entries : List (Nat × σ)) (distance2 : σ → α) : List (Nat × α) :=
  entries.map fun (i, s) => (i, distance2 s)

/-- The visit from near to far that goes by index among equally near shapes. -/
@[reducible]
def SearchOrder.byIndex {α : Type} [Scalar α] : SearchOrder α where
  visit entries distance2 :=
    (measured entries distance2).mergeSort fun a b => Scalar.rank a.2 b.2 != .gt

instance : SearchOrder Double := .byIndex

/-- Every shape is visited, and none after a farther one. -/
class LawfulSearchOrder (α : Type) [Scalar α] [SearchOrder α] : Prop where
  visit_perm {σ : Type} (entries : List (Nat × σ)) (distance2 : σ → α) :
    (SearchOrder.visit entries distance2).Perm (measured entries distance2)
  visit_ascending {σ : Type} (entries : List (Nat × σ)) (distance2 : σ → α) :
    (SearchOrder.visit entries distance2).Pairwise fun a b => Scalar.rank a.2 b.2 ≠ .gt

section Queries

variable {α σ : Type} [Scalar α] [SearchOrder α]

/-- Whether a hit is ranked before or level with another one. -/
def Hit.notAfter (a b : Hit α) : Bool :=
  match Scalar.rank a.distance b.distance with
  | .lt => true
  | .eq => a.index ≤ b.index
  | .gt => false

/-- Hits by distance, equally distant ones by index. -/
def Hit.ranked (hits : List (Hit α)) : List (Hit α) := hits.mergeSort Hit.notAfter

/-- The shapes from near to far, by a squared distance. -/
def Tree.visit (t : Tree σ) (distance2 : σ → α) : List (Hit α) :=
  (SearchOrder.visit t.entries distance2).map fun (i, d) => ⟨i, Scalar.sqrt d⟩

/-- The first `k` hits of a visit, ranked. -/
def firstRanked (k : Nat) (visit : List (Hit α)) : List (Hit α) := Hit.ranked (visit.take k)

/-- The `k` shapes nearest by a squared distance. -/
def Tree.nearest (t : Tree σ) (distance2 : σ → α) (k : Nat) : List (Hit α) :=
  firstRanked k (t.visit distance2)

/-- The vertices nearest to a point. -/
def nearestPoints (t : Tree (Point α)) (p : Point α) (k : Nat) : List (Hit α) :=
  t.nearest (fun v => v.distance2 p) k

/-- The segments nearest to a point. -/
def nearestSegments (t : Tree (Segment α)) (p : Point α) (k : Nat) : List (Hit α) :=
  t.nearest (fun (a, b) => Geometry.searchDistance2 p a b) k

/-- The filled triangles nearest to a point. -/
def nearestTriangles (t : Tree (Corners α)) (p : Point α) (k : Nat) : List (Hit α) :=
  t.nearest (fun (a, b, c) => Geometry.triangleDistance2 p a b c) k

/-- The points between the corners of a box, bounds included. -/
def pointsInBox (t : Tree (Point α)) (b : Box α) : List Nat :=
  (t.entries.filter fun (_, p) => b.envelope.contains p).map Prod.fst

end Queries

end Cosimulation.Search

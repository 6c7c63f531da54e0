/-!
# Scalars

The numerical part of the library is written once, for any type of scalars: the same definition of a
relaxation step or of a distance runs on binary floating point and can be read over an exact field.

`Scalar` collects what the algorithms ask of a number. Order and equality are the plain `<`, `≤` and
`==` of the type, so on floating point a comparison with a NaN is false; no law is assumed here.

The remaining operations are derived: `Scalar.larger` and `Scalar.smaller` prefer a number to a NaN,
which is what makes a fold of them over partly undefined data meaningful.
-/

namespace Cosimulation

/-- The arithmetic, the comparisons and the few functions that the algorithms use. -/
class Scalar (α : Type) extends Zero α, One α, Add α, Sub α, Mul α, Div α, Neg α, LT α, LE α,
    BEq α, OfScientific α where
  /-- Decides `a < b`. -/
  decLt (a b : α) : Decidable (a < b)
  /-- Decides `a ≤ b`. -/
  decLe (a b : α) : Decidable (a ≤ b)
  /-- The non-negative square root. -/
  sqrt : α → α
  /-- The magnitude. -/
  abs : α → α
  /-- The length of the hypotenuse over two legs, free of intermediate overflow. -/
  hypot : α → α → α
  /-- One with the sign of the argument; the sign of zero counts as positive unless zero is
  signed. -/
  signum : α → α
  /-- A total order that refines `<`, by which results are ranked. -/
  rank : α → α → Ordering

namespace Scalar

variable {α : Type} [Scalar α]

instance (a b : α) : Decidable (a < b) := decLt a b

instance (a b : α) : Decidable (a ≤ b) := decLe a b

/-- The larger of two scalars; a number is preferred to an undefined value. -/
def larger (a b : α) : α :=
  if a < b then b else if a == a then a else b

/-- The smaller of two scalars; a number is preferred to an undefined value. -/
def smaller (a b : α) : α :=
  if b < a then b else if a == a then a else b

/-- The square of a scalar. -/
def sq (a : α) : α := a * a

end Scalar

end Cosimulation

import Mathlib.Analysis.InnerProductSpace.PiL2
import Cosimulation.Geometry.Point
import Cosimulation.Proofs.Exact.Arithmetic

/-!
# Exact arithmetic with undefined results

Over the real numbers a quotient by zero is zero, so that nothing is seen of a division by zero in
an algorithm that is read over them. `PartialReal` has the same numbers and one value more. A
quotient by zero is undefined, and so is the root of a negative number; what is computed from an
undefined value is undefined, and a comparison with one is false. This is how binary floating point
deals with a value that is no number, without its rounding.

As long as nothing undefined comes up, the arithmetic is that of the real numbers (`real_add`,
`real_div`, ...). The same goes for points (`Point.real`), whose operations never divide.
-/

namespace Cosimulation

/-- A real number, or the result of an operation that has none. -/
inductive PartialReal where
  | real (x : ℝ)
  | undefined

namespace PartialReal

/-- Applies a function to a defined value. -/
def map (f : ℝ → ℝ) : PartialReal → PartialReal
  | real x => real (f x)
  | undefined => undefined

/-- Applies a function to two defined values. -/
def map₂ (f : ℝ → ℝ → ℝ) : PartialReal → PartialReal → PartialReal
  | real x, real y => real (f x y)
  | _, _ => undefined

/-- Whether two values are defined and related. -/
def Holds (r : ℝ → ℝ → Prop) : PartialReal → PartialReal → Prop
  | real x, real y => r x y
  | _, _ => False

/-- The quotient by a number other than zero. -/
noncomputable def quotient : PartialReal → PartialReal → PartialReal
  | real x, real y => if y = 0 then undefined else real (x / y)
  | _, _ => undefined

/-- The root of a number that is not negative. -/
noncomputable def root : PartialReal → PartialReal
  | real x => if x < 0 then undefined else real (Scalar.sqrt x)
  | undefined => undefined

/-- The order by which results are ranked: what is undefined comes last. -/
noncomputable def rank : PartialReal → PartialReal → Ordering
  | real x, real y => Scalar.rank x y
  | real _, undefined => .lt
  | undefined, real _ => .gt
  | undefined, undefined => .eq

open Classical in
noncomputable instance : Scalar PartialReal where
  zero := real 0
  one := real 1
  add := map₂ (· + ·)
  sub := map₂ (· - ·)
  mul := map₂ (· * ·)
  div := quotient
  neg := map Neg.neg
  lt := Holds (· < ·)
  le := Holds (· ≤ ·)
  decLt _ _ := inferInstance
  decLe _ _ := inferInstance
  beq x y := decide (Holds (· = ·) x y)
  ofScientific m negative e := real (OfScientific.ofScientific m negative e)
  sqrt := root
  abs := map Scalar.abs
  hypot := map₂ Scalar.hypot
  signum := map Scalar.signum
  rank := rank

variable (x y : ℝ)

theorem zero_eq : (0 : PartialReal) = real 0 := rfl
theorem one_eq : (1 : PartialReal) = real 1 := rfl
theorem real_add : real x + real y = real (x + y) := rfl
theorem real_sub : real x - real y = real (x - y) := rfl
theorem real_mul : real x * real y = real (x * y) := rfl
theorem real_abs : Scalar.abs (real x) = real (Scalar.abs x) := rfl
theorem real_lt : real x < real y ↔ x < y := Iff.rfl
theorem real_le : real x ≤ real y ↔ x ≤ y := Iff.rfl
theorem real_rank : Scalar.rank (real x) (real y) = Scalar.rank x y := rfl

variable {x y}

theorem real_div (h : y ≠ 0) : real x / real y = real (x / y) := if_neg h

theorem real_div_zero : real x / real 0 = undefined := if_pos rfl

end PartialReal

namespace Point

/-- A point with defined coordinates. -/
def real (p : Point ℝ) : Point PartialReal := ⟨.real p.x, .real p.y, .real p.z⟩

/-- The point with no defined coordinate. -/
def undefined : Point PartialReal := ⟨.undefined, .undefined, .undefined⟩

variable (p q : Point ℝ) (t : ℝ)

theorem real_add : p.real + q.real = (p + q).real := rfl
theorem real_sub : p.real - q.real = (p - q).real := rfl
theorem real_scale : p.real.scale (.real t) = (p.scale t).real := rfl
theorem real_dot : p.real.dot q.real = .real (p.dot q) := rfl
theorem real_norm2 : p.real.norm2 = .real p.norm2 := rfl
theorem real_distance2 : p.real.distance2 q.real = .real (p.distance2 q) := rfl
theorem scale_undefined : p.real.scale .undefined = undefined := rfl
theorem add_undefined : p.real + undefined = undefined := rfl
theorem distance2_undefined : p.real.distance2 undefined = .undefined := rfl

end Point

end Cosimulation

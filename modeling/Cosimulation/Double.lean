import Cosimulation.Scalar

/-!
# Binary floating point

The scalars the library runs on are 64-bit floating point numbers, kept by their bit pattern. The
pattern and not the number is what travels between processes, so that storing and forwarding a value
never changes it, whatever it encodes: signed zeros and the payloads of undefined values included.

Arithmetic works on the encoded number. Negation, magnitude and sign are operations on the sign bit.
-/

namespace Cosimulation

/-- A 64-bit floating point number by its bit pattern. -/
structure Double where
  bits : UInt64
  deriving Repr, DecidableEq

namespace Double

/-- The number that the bits encode. -/
def toFloat (x : Double) : Float := Float.ofBits x.bits

/-- The pattern of a number. -/
def ofFloat (x : Float) : Double := ⟨x.toBits⟩

/-- Applies an operation on numbers to their patterns. -/
def lift₂ (f : Float → Float → Float) (x y : Double) : Double := ofFloat (f x.toFloat y.toFloat)

/-- The bit that holds the sign. -/
def signBit : UInt64 := 0x8000000000000000

/-- Whether the sign bit is set. -/
def isNegative (x : Double) : Bool := signBit ≤ x.bits

/-- The pattern with the sign bit cleared. -/
def magnitude (x : Double) : Double := if x.isNegative then ⟨x.bits - signBit⟩ else x

/-- The pattern with the sign bit flipped. -/
def negate (x : Double) : Double := ⟨x.bits ^^^ signBit⟩

/-- Whether the bits encode no number. -/
def isUndefined (x : Double) : Bool := x.toFloat.isNaN

/-- Whether the bits encode a finite number. -/
def isFinite (x : Double) : Bool := x.toFloat.isFinite

/-- The hypotenuse, scaled by the longer leg so that squaring neither overflows nor vanishes. -/
def hypot (a b : Float) : Float :=
  let x := a.abs
  let y := b.abs
  if x.isInf || y.isInf then 1.0 / 0.0
  else if x.isNaN || y.isNaN then 0.0 / 0.0
  else
    let long := if x < y then y else x
    let short := if x < y then x else y
    if long == 0.0 then 0.0
    else
      let t := short / long
      long * (1.0 + t * t).sqrt

/-- One with the sign of `x`, signed zeros included; what is undefined stays so. -/
def signum (x : Double) : Double :=
  if x.isUndefined then x else if x.isNegative then ofFloat (-1.0) else ofFloat 1.0

/-- A key in which patterns are ordered as the numbers they encode: negative ones count down from
the sign bit, positive ones count up. -/
def rankKey (x : Double) : Int :=
  if x.isNegative then -Int.ofNat x.magnitude.bits.toNat - 1 else Int.ofNat x.bits.toNat

instance : Scalar Double where
  zero := ofFloat 0.0
  one := ofFloat 1.0
  add := lift₂ (· + ·)
  sub := lift₂ (· - ·)
  mul := lift₂ (· * ·)
  div := lift₂ (· / ·)
  neg := negate
  lt x y := x.toFloat < y.toFloat
  le x y := x.toFloat ≤ y.toFloat
  decLt x y := inferInstanceAs (Decidable (x.toFloat < y.toFloat))
  decLe x y := inferInstanceAs (Decidable (x.toFloat ≤ y.toFloat))
  beq x y := x.toFloat == y.toFloat
  ofScientific m negative e := ofFloat (Float.ofScientific m negative e)
  sqrt x := ofFloat x.toFloat.sqrt
  abs := magnitude
  hypot := lift₂ hypot
  signum := signum
  rank x y := compare x.rankKey y.rankKey

end Double

end Cosimulation

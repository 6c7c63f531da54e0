/-!
# What a bit pattern encodes

`Reading.ofBits` splits the 64 bits of a floating point number into a sign, an integer mantissa and
a power of two. From there on everything about decimal text is exact arithmetic on natural numbers:
`Ratio.ofDyadic` writes `m · 2 ^ e` as a quotient of naturals.
-/

namespace Cosimulation.Decimal

/-- A floating point number taken apart. A finite one has the magnitude `mantissa · 2 ^
exponent`. -/
inductive Reading where
  | undefined
  | infinite (negative : Bool)
  | finite (negative : Bool) (mantissa : Nat) (exponent : Int)
  deriving Repr, DecidableEq

/-- Sign bit, eleven exponent bits, fifty-two fraction bits. A zero exponent field marks the numbers
without a leading one, a full exponent field the infinities and the undefined values. -/
def Reading.ofBits (bits : UInt64) : Reading :=
  let n := bits.toNat
  let fraction := n % 0x10000000000000
  let field := n / 0x10000000000000 % 2048
  let negative := decide (0x8000000000000000 ≤ n)
  if field = 2047 then
    if fraction = 0 then .infinite negative else .undefined
  else if field = 0 then .finite negative fraction (-1074)
  else .finite negative (0x10000000000000 + fraction) (Int.ofNat field - 1075)

/-- A quotient of two natural numbers. -/
structure Ratio where
  num : Nat
  den : Nat

namespace Ratio

/-- The value `m · b ^ e`. -/
def scaled (m b : Nat) (e : Int) : Ratio :=
  match e with
  | .ofNat k => ⟨m * b.pow k, 1⟩
  | .negSucc k => ⟨m, b.pow (k + 1)⟩

/-- The value `m · 2 ^ e`. -/
def ofDyadic (m : Nat) (e : Int) : Ratio := scaled m 2 e

/-- Multiplies by a power of ten. -/
def shift (r : Ratio) (k : Int) : Ratio :=
  let s := scaled 1 10 k
  ⟨r.num * s.num, r.den * s.den⟩

/-- The largest natural number that is not above the quotient. -/
def floor (r : Ratio) : Nat := r.num / r.den

/-- The nearest natural number; of two equally near ones the even one. -/
def nearest (r : Ratio) : Nat :=
  let q := r.num / r.den
  let rest := 2 * (r.num % r.den)
  if rest < r.den then q
  else if r.den < rest then q + 1
  else if q % 2 = 0 then q else q + 1

end Ratio

/-- How many decimal digits a number has; zero has none. -/
def digitCount (n : Nat) : Nat :=
  if n = 0 then 0 else digitCount (n / 10) + 1
termination_by n
decreasing_by omega

/-- For a positive quotient the exponent `k` with `10 ^ (k - 1) ≤ r < 10 ^ k`. Below one it is read
off the reciprocal, rounded up. -/
def Ratio.magnitude (r : Ratio) : Int :=
  if r.den ≤ r.num then Int.ofNat (digitCount (r.num / r.den))
  else 1 - Int.ofNat (digitCount ((r.den + r.num - 1) / r.num - 1))

end Cosimulation.Decimal

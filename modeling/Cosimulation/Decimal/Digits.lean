import Cosimulation.Decimal.Binary

/-!
# Choosing decimal digits

Two ways to choose the digits of a positive number `m · 2 ^ e`, both in exact arithmetic:

* `Digits.rounded` keeps a fixed number of significant digits, a half going to the even neighbour;
* `Digits.shortest` finds the fewest digits that read back as the same number. On each decimal grid,
  from coarse to fine, it tests the two neighbours of the value; the first grid on which one of them
  reads back wins, the nearer of two, and of two equally near ones the larger.

That testing the two neighbours is enough holds because the reals that read back form an interval
around the value: if any point of a grid lies in it, so does a neighbour of the value.
-/

namespace Cosimulation.Decimal

/-- The number `coefficient · 10 ^ exponent`. -/
structure Digits where
  coefficient : Nat
  exponent : Int
  deriving Repr, DecidableEq

/-- Moves trailing zeros of the coefficient into the exponent, at most `fuel` of them. -/
def Digits.trim (fuel : Nat) (d : Digits) : Digits :=
  match fuel with
  | 0 => d
  | fuel + 1 =>
    if d.coefficient ≠ 0 ∧ d.coefficient % 10 = 0 then
      trim fuel ⟨d.coefficient / 10, d.exponent + 1⟩
    else d

/-- The nearest number with `n` significant digits. Rounding up may add a digit, as from 9.99 to
10.0; that digit is then dropped again. -/
def Digits.rounded (n : Nat) (r : Ratio) : Digits :=
  let exponent := r.magnitude - Int.ofNat n
  let c := (r.shift (-exponent)).nearest
  if c = Nat.pow 10 n then ⟨Nat.pow 10 (n - 1), exponent + 1⟩ else ⟨c, exponent⟩

/-- Whether the decimal `d` reads back as `m · 2 ^ e`: it lies within half a step of the binary
grid, ends included when `m` is even. Below a power of two that has a finer grid beneath it, the
step is half as wide. -/
def readsBack (m : Nat) (e : Int) (d : Digits) : Bool :=
  let below := if m = 0x10000000000000 ∧ e ≠ -1074 then 1 else 2
  -- four times the value, so that quarters of a step are whole
  let value := Ratio.ofDyadic (4 * m) e
  let low := Ratio.ofDyadic (4 * m - below) e
  let high := Ratio.ofDyadic (4 * m + 2) e
  let x := Ratio.scaled (4 * d.coefficient) 10 d.exponent
  let lowSide := low.num * x.den
  let xLow := x.num * low.den
  let highSide := high.num * x.den
  if xLow * value.den ≤ value.num * x.den * low.den then
    if m % 2 = 0 then lowSide ≤ xLow else lowSide < xLow
  else if m % 2 = 0 then x.num * high.den ≤ highSide else x.num * high.den < highSide

/-- The better neighbour of the value on the grid `10 ^ exponent`, if one reads back. -/
def onGrid (m : Nat) (e exponent : Int) : Option Digits :=
  let value := (Ratio.ofDyadic m e).shift (-exponent)
  let down := value.floor
  let lower : Digits := ⟨down, exponent⟩
  let upper : Digits := ⟨down + 1, exponent⟩
  match readsBack m e lower, readsBack m e upper with
  | true, true =>
    -- the remainder decides which neighbour is nearer
    if 2 * (value.num % value.den) < value.den then some lower else some upper
  | true, false => some lower
  | false, true => some upper
  | false, false => none

/-- The first of the grids with `n`, `n + 1`, … digits that holds a number reading back. Seventeen
digits always do, so the last grid is taken without a test. -/
def shortestFrom (m : Nat) (e magnitude : Int) : (grids : Nat) → (n : Nat) → Digits
  | 0, n =>
    let exponent := magnitude - Int.ofNat n
    ⟨((Ratio.ofDyadic m e).shift (-exponent)).nearest, exponent⟩
  | grids + 1, n =>
    (onGrid m e (magnitude - Int.ofNat n)).getD (shortestFrom m e magnitude grids (n + 1))

/-- The fewest digits that read back as the positive number `m · 2 ^ e`. -/
def Digits.shortest (m : Nat) (e : Int) : Digits :=
  (shortestFrom m e (Ratio.ofDyadic m e).magnitude 16 1).trim 20

end Cosimulation.Decimal

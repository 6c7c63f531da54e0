import Cosimulation.Config.Value

/-!
# Numerals

How a number is written in a record: digits, and optionally a sign, a point and an exponent. Only a
numeral without point and exponent is an integer; a negative zero is a scalar, because no integer
has its sign. A scalar is the one nearest to the number that the digits denote.
-/

namespace Cosimulation.Value

/-- The scalar `± digits · 10 ^ shift`. -/
def ofDecimal (negative : Bool) (digits : Nat) (shift : Int) : Value :=
  let x : Double :=
    if digits = 0 then .ofFloat 0.0
    else .ofFloat (Float.ofScientific digits (shift < 0) shift.natAbs)
  scalar (if negative then x.negate else x)

/-- The number that some digits denote. -/
def digits? (cs : List Char) : Option Nat :=
  if cs.isEmpty then none
  else cs.foldlM (fun n c => if c.isDigit then some (10 * n + (c.toNat - 48)) else none) 0

/-- The exponent that follows its letter; no letter means no exponent. -/
def exponent? : List Char → Option Int
  | [] => some 0
  | _ :: '-' :: cs => (digits? cs).map fun n => -(n : Int)
  | _ :: '+' :: cs => (digits? cs).map Int.ofNat
  | _ :: cs => (digits? cs).map Int.ofNat

/-- A sign and what follows it. -/
def splitSign : List Char → Bool × List Char
  | '-' :: cs => (true, cs)
  | cs => (false, cs)

/-- The value of a numeral. -/
def ofNumeral? (cs : List Char) : Option Value := do
  let (negative, unsigned) := splitSign cs
  let mantissa := unsigned.takeWhile fun c => c != 'e' && c != 'E'
  let whole := mantissa.takeWhile (· != '.')
  let places := (mantissa.drop whole.length).drop 1
  let digits ← digits? (whole ++ places)
  let exponent ← exponent? (unsigned.drop mantissa.length)
  let isWhole := whole.length = unsigned.length ∧ ¬ (negative ∧ digits = 0)
  if isWhole then return integer (if negative then -digits else digits)
  else return ofDecimal negative digits (exponent - places.length)

end Cosimulation.Value

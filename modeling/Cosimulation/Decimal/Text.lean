import Cosimulation.Decimal.Digits
import Cosimulation.Double

/-!
# Decimal text of floating point numbers

Two written forms are in use. `Decimal.exact` is the form of messages: the shortest digits that read
back, always positional, with a sign also for a negative zero. `Decimal.significant?` is the form of
results: ten significant digits with an exponent.
-/

namespace Cosimulation.Decimal

/-- The digits of a number followed or parted by a point, never with an exponent. -/
def Digits.positional (d : Digits) : String :=
  let ds := Nat.toDigits 10 d.coefficient
  match d.exponent with
  | .ofNat k => String.ofList (ds ++ List.replicate k '0')
  | .negSucc k =>
    let places := k + 1
    if places < ds.length then
      let whole := ds.length - places
      String.ofList (ds.take whole ++ '.' :: ds.drop whole)
    else String.ofList ('0' :: '.' :: List.replicate (places - ds.length) '0' ++ ds)

/-- One digit, a point, the other digits and the exponent of the first digit. -/
def Digits.scientific (d : Digits) : String :=
  let ds := Nat.toDigits 10 d.coefficient
  let exponent := d.exponent + Int.ofNat ds.length - 1
  String.ofList (ds.take 1 ++ '.' :: ds.drop 1) ++ "e" ++ toString exponent

/-- The sign as it is written before a magnitude. -/
def sign (negative : Bool) : String := if negative then "-" else ""

/-- The text of a scalar inside a message. -/
def exact (x : Double) : String :=
  match Reading.ofBits x.bits with
  | .undefined => "NaN"
  | .infinite negative => sign negative ++ "inf"
  | .finite negative m e =>
    sign negative ++ if m = 0 then "0" else (Digits.shortest m e).positional

/-- The text of a finite scalar as a result, `none` for the values that are no numbers: ten
significant digits, and a bare `0` for both zeros. -/
def significant? (x : Double) : Option String :=
  match Reading.ofBits x.bits with
  | .undefined => none
  | .infinite _ => none
  | .finite negative m e =>
    some (if m = 0 then "0"
      else sign negative ++ (Digits.rounded 10 (Ratio.ofDyadic m e)).scientific)

end Cosimulation.Decimal

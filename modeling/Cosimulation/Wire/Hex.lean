import Cosimulation.Config.Text
import Cosimulation.Wire.Bytes

/-!
# Bytes as text

Two lower-case hexadecimal digits for each byte. Upper-case digits are read as well.
-/

namespace Cosimulation.Wire.Hex

/-- The digits of bytes. -/
def encode (bytes : Bytes) : String :=
  String.ofList (bytes.flatMap fun b =>
    Nat.toDigits 16 (b.toNat / 16) ++ Nat.toDigits 16 (b.toNat % 16))

/-- The bytes that pairs of digits stand for. -/
def decodeDigits : List Char → Option Bytes
  | [] => some []
  | a :: b :: rest => do
    let high ← Value.hexDigit? a
    let low ← Value.hexDigit? b
    let bytes ← decodeDigits rest
    return UInt8.ofNat (16 * high + low) :: bytes
  | _ => none

/-- The bytes of a text. -/
def decode (s : String) : Option Bytes := decodeDigits s.toList

end Cosimulation.Wire.Hex

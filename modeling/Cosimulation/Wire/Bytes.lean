import Cosimulation.Fault

/-!
# Bytes

Numbers are written with the least significant byte first, in a fixed number of bytes. A message
holds records of one size, one after the other; `decodeAll` refuses bytes that do not divide into
whole records and then reads each record on its own.

A number that fits its bytes is read back from them (`ofLittleEndian_littleEndian`).
-/

namespace Cosimulation.Wire

/-- A message. -/
abbrev Bytes := List UInt8

/-- A number in `width` bytes, the least significant first; what does not fit is dropped. -/
def littleEndian : (width : Nat) → Nat → Bytes
  | 0, _ => []
  | width + 1, n => UInt8.ofNat n :: littleEndian width (n / 256)

/-- The number that bytes stand for. -/
def ofLittleEndian (bytes : Bytes) : Nat := bytes.foldr (fun b n => b.toNat + 256 * n) 0

@[simp]
theorem length_littleEndian (width n : Nat) : (littleEndian width n).length = width := by
  induction width generalizing n with
  | zero => rfl
  | succ width ih => rw [littleEndian, List.length_cons, ih]

/-- A number that fits its bytes is read back. -/
theorem ofLittleEndian_littleEndian {width n : Nat} (h : n < Nat.pow 256 width) :
    ofLittleEndian (littleEndian width n) = n := by
  induction width generalizing n with
  | zero => exact (Nat.lt_one_iff.1 h).symm
  | succ width ih =>
    have small : n / 256 < Nat.pow 256 width := by
      have h : n < Nat.pow 256 width * 256 := h
      exact Nat.div_lt_of_lt_mul (by rwa [Nat.mul_comm] at h)
    show (UInt8.ofNat n).toNat + 256 * ofLittleEndian (littleEndian width (n / 256)) = n
    rw [ih small, UInt8.toNat_ofNat']
    omega

/-- The number in the `width` bytes from `offset` on. -/
def numberAt (bytes : Bytes) (offset width : Nat) : Nat :=
  ofLittleEndian ((bytes.drop offset).take width)

/-- A value that is written in a fixed number of bytes. -/
class Record (ρ : Type) where
  /-- The number of bytes. -/
  size : Nat
  encode : ρ → Bytes
  /-- Reads exactly `size` bytes. -/
  decode : Bytes → ρ

/-- The bytes of several records. -/
def encodeAll {ρ : Type} [Record ρ] (records : List ρ) : Bytes := records.flatMap Record.encode

/-- The first `count` pieces of `size` bytes each. -/
def pieces (size : Nat) : (count : Nat) → Bytes → List Bytes
  | 0, _ => []
  | count + 1, bytes => bytes.take size :: pieces size count (bytes.drop size)

/-- The records that bytes hold. -/
def decodeAll (ρ : Type) [Record ρ] (bytes : Bytes) : Except FormatFault (List ρ) :=
  let size := Record.size ρ
  if size = 0 ∨ bytes.length % size ≠ 0 then .error (.partialRecord bytes.length size)
  else .ok ((pieces size (bytes.length / size) bytes).map Record.decode)

/-- Insists on a length. -/
def expectLength (actual expected : Nat) : Except FormatFault Unit :=
  if actual = expected then .ok () else .error (.length expected actual)

/-! ## Plain numbers -/

instance : Record UInt8 where
  size := 1
  encode b := [b]
  decode bytes := UInt8.ofNat (numberAt bytes 0 1)

instance : Record UInt16 where
  size := 2
  encode n := littleEndian 2 n.toNat
  decode bytes := UInt16.ofNat (numberAt bytes 0 2)

instance : Record UInt32 where
  size := 4
  encode n := littleEndian 4 n.toNat
  decode bytes := UInt32.ofNat (numberAt bytes 0 4)

instance : Record UInt64 where
  size := 8
  encode n := littleEndian 8 n.toNat
  decode bytes := UInt64.ofNat (numberAt bytes 0 8)

instance : Record Double where
  size := 8
  encode x := littleEndian 8 x.bits.toNat
  decode bytes := ⟨UInt64.ofNat (numberAt bytes 0 8)⟩

end Cosimulation.Wire

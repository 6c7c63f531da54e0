import Mathlib.Algebra.Ring.Nat
import Cosimulation.Proofs.Wire.Records

/-!
# Records at positions

What a message says can be told from the numbers at its byte positions, without cutting it up. The
records in a part of a message are those that stand at equal distances from where the part begins
(`decodeAll_part`), and the numbers in a record are the numbers at its place in the message
(`numberAt_part`); each is below the power of 256 that its width allows (`numberAt_lt`), so that
nothing is lost when it is read into a word.
-/

namespace Cosimulation.Wire

/-! ## Numbers -/

section
variable {bytes : Bytes} {offset start width count : Nat}

theorem ofLittleEndian_lt (bytes : Bytes) : ofLittleEndian bytes < 256 ^ bytes.length := by
  induction bytes with
  | nil => exact Nat.one_pos
  | cons b bytes ih =>
    have hb : b.toNat < 256 := b.toNat_lt
    show b.toNat + 256 * ofLittleEndian bytes < 256 ^ (bytes.length + 1)
    rw [Nat.pow_succ]
    omega

/-- A number fits the bytes it is read from. -/
theorem numberAt_lt (bytes : Bytes) (offset width : Nat) :
    numberAt bytes offset width < 256 ^ width :=
  Nat.lt_of_lt_of_le (ofLittleEndian_lt _) (Nat.pow_le_pow_right (by omega)
    (by rw [List.length_take]; exact Nat.min_le_left _ _))

/-- A number in a part of a message stands in the message. -/
theorem numberAt_part (h : offset + width ≤ count) :
    numberAt ((bytes.drop start).take count) offset width =
      numberAt bytes (start + offset) width := by
  unfold numberAt
  rw [List.drop_take, List.take_take, List.drop_drop, Nat.min_eq_left (by omega)]

theorem toNat_wordAt (bytes : Bytes) (offset : Nat) :
    (wordAt bytes offset).toNat = numberAt bytes offset 8 :=
  UInt64.toNat_ofNat_of_lt' (numberAt_lt bytes offset 8)

theorem toNat_countAt (bytes : Bytes) (offset : Nat) :
    (countAt bytes offset).toNat = numberAt bytes offset 4 :=
  UInt32.toNat_ofNat_of_lt' (numberAt_lt bytes offset 4)

theorem toNat_wordAt_part (h : offset + 8 ≤ count) :
    (wordAt ((bytes.drop start).take count) offset).toNat = numberAt bytes (start + offset) 8 := by
  rw [toNat_wordAt, numberAt_part h]

end

/-! ## Records -/

section
variable {ρ : Type} [Record ρ] {bytes : Bytes}

/-- The record that stands at an offset. -/
def recordAt (ρ : Type) [Record ρ] (bytes : Bytes) (offset : Nat) : ρ :=
  Record.decode ((bytes.drop offset).take (Record.size ρ))

/-- Pieces of one size follow each other at its multiples. -/
theorem pieces_eq (size : Nat) : ∀ (count : Nat) (bytes : Bytes), pieces size count bytes =
    (List.range count).map fun i => (bytes.drop (i * size)).take size := by
  intro count
  induction count with
  | zero => intro _; rfl
  | succ count ih =>
    intro bytes
    rw [pieces, ih, List.range_succ_eq_map, List.map_cons, List.map_map, Nat.zero_mul,
      List.drop_zero]
    refine congrArg (bytes.take size :: ·) (List.map_congr_left fun i _ => ?_)
    simp only [Function.comp_apply, List.drop_drop]
    rw [Nat.succ_mul, Nat.add_comm]

/-- The records in a part of a message stand at equal distances. -/
theorem decodeAll_part [FixedSize ρ] {start count : Nat}
    (h : start + count * Record.size ρ ≤ bytes.length) :
    decodeAll ρ ((bytes.take (start + count * Record.size ρ)).drop start) =
      .ok ((List.range count).map fun i => recordAt ρ bytes (start + i * Record.size ρ)) := by
  have hpos : 0 < Record.size ρ := FixedSize.size_pos
  have hlen : ((bytes.take (start + count * Record.size ρ)).drop start).length =
      count * Record.size ρ := by
    rw [List.length_drop, List.length_take]
    omega
  unfold decodeAll
  dsimp only
  rw [hlen, Nat.mul_mod_left, if_neg (by omega), Nat.mul_div_cancel _ hpos, pieces_eq, List.map_map]
  refine congrArg Except.ok (List.map_congr_left fun i hi => ?_)
  -- the piece ends before the part does
  have hi' : (i + 1) * Record.size ρ ≤ count * Record.size ρ :=
    Nat.mul_le_mul_right _ (List.mem_range.1 hi)
  rw [Nat.succ_mul] at hi'
  simp only [Function.comp_apply, recordAt]
  rw [List.drop_take, List.drop_take, List.take_take, List.drop_drop, Nat.min_eq_left (by omega)]

/-- A record that is alone stands at the front. -/
theorem decodeAll_singleton {r : ρ} (h : decodeAll ρ bytes = .ok [r]) :
    Record.decode (bytes.take (Record.size ρ)) = r := by
  unfold decodeAll at h
  dsimp only at h
  by_cases hsize : Record.size ρ = 0 ∨ bytes.length % Record.size ρ ≠ 0
  · rw [if_pos hsize] at h
    cases h
  · rw [if_neg hsize] at h
    have h := Except.ok.inj h
    cases hcount : bytes.length / Record.size ρ with
    | zero => rw [hcount] at h; cases h
    | succ count =>
      rw [hcount, pieces, List.map_cons] at h
      exact (List.cons.inj h).1

end

theorem expectLength_ok_iff {found expected : Nat} :
    expectLength found expected = .ok () ↔ found = expected := by
  unfold expectLength
  by_cases h : found = expected
  · simp [h]
  · simp [h]

/-! ## The records of a mesh message -/

section
variable {bytes : Bytes} {offset count : Nat}

theorem numberAt_take {width : Nat} (h : offset + width ≤ count) :
    numberAt (bytes.take count) offset width = numberAt bytes offset width := by
  rw [numberAt, numberAt, List.drop_take, List.take_take, Nat.min_eq_left (by omega)]

/-- A header passes if it gives the current version and the kind that is asked for. -/
theorem Header.check_ok_iff {h : Header} {kind : UInt16} :
    h.check kind = .ok () ↔ h.version = currentVersion ∧ h.kind = kind := by
  unfold Header.check
  by_cases hv : h.version = currentVersion
  · by_cases hk : h.kind = kind
    · simp [hv, hk]
    · simp [hv, hk]
  · simp [hv]

/-- The version that the header of a message gives. -/
theorem toNat_version (hcount : 2 ≤ count) :
    (Record.decode (bytes.take count) : Header).version.toNat = numberAt bytes 0 2 := by
  show (UInt16.ofNat (numberAt (bytes.take count) 0 2)).toNat = _
  rw [numberAt_take (by omega)]
  exact UInt16.toNat_ofNat_of_lt' (numberAt_lt bytes 0 2)

/-- The kind that the header of a message gives. -/
theorem toNat_kind (hcount : 4 ≤ count) :
    (Record.decode (bytes.take count) : Header).kind.toNat = numberAt bytes 2 2 := by
  show (UInt16.ofNat (numberAt (bytes.take count) 2 2)).toNat = _
  rw [numberAt_take (by omega)]
  exact UInt16.toNat_ofNat_of_lt' (numberAt_lt bytes 2 2)

/-- Which messages have a header that passes. -/
theorem check_front_iff {kind : UInt16} (hcount : 4 ≤ count) :
    (Record.decode (bytes.take count) : Header).check kind = .ok () ↔
      numberAt bytes 0 2 = currentVersion.toNat ∧ numberAt bytes 2 2 = kind.toNat := by
  rw [Header.check_ok_iff, ← UInt16.toNat_inj, ← UInt16.toNat_inj, toNat_version (by omega),
    toNat_kind hcount]

theorem toNat_countAt_take (h : offset + 4 ≤ count) :
    (countAt (bytes.take count) offset).toNat = numberAt bytes offset 4 := by
  rw [toNat_countAt, numberAt_take h]

/-- The two vertices of an edge record. -/
def EdgeRecord.pair (r : EdgeRecord) : Nat × Nat := (r.a.toNat, r.b.toNat)

/-- The three edges of a triangle record. -/
def TriangleRecord.triple (r : TriangleRecord) : Nat × Nat × Nat :=
  (r.a.toNat, r.b.toNat, r.c.toNat)

theorem pair_recordAt (bytes : Bytes) (offset : Nat) : (recordAt EdgeRecord bytes offset).pair =
    (numberAt bytes offset 8, numberAt bytes (offset + 8) 8) :=
  Prod.ext (toNat_wordAt_part (by decide)) (toNat_wordAt_part (by decide))

theorem triple_recordAt (bytes : Bytes) (offset : Nat) :
    (recordAt TriangleRecord bytes offset).triple =
      (numberAt bytes offset 8, numberAt bytes (offset + 8) 8, numberAt bytes (offset + 16) 8) :=
  Prod.ext (toNat_wordAt_part (by decide))
    (Prod.ext (toNat_wordAt_part (by decide)) (toNat_wordAt_part (by decide)))

end

end Cosimulation.Wire

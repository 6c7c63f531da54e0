import Cosimulation.Wire.Records

/-!
# Records are read back

What is written as a record is read back from its bytes, and so is a list of records: a record of a
type with `FixedSize` takes as many bytes as its type says, so that `decodeAll` cuts the message
where `encodeAll` has joined it (`decodeAll_encodeAll`, `pieces_encodeAll`).

Reading inverts writing for all records but those of vertices. There the one index that stands for
"no index" is lost (`decode_encode_vertex`).
-/

namespace Cosimulation.Wire

/-! ## Numbers in bytes -/

section
variable {a b bytes : Bytes} {offset width : Nat}

/-- A number behind the first part of a message. -/
theorem numberAt_append_right (h : a.length ≤ offset) :
    numberAt (a ++ b) offset width = numberAt b (offset - a.length) width := by
  unfold numberAt
  rw [List.drop_append, List.drop_eq_nil_of_le h, List.nil_append]

/-- A number inside the first part of a message. -/
theorem numberAt_append_left (h : offset + width ≤ a.length) :
    numberAt (a ++ b) offset width = numberAt a offset width := by
  unfold numberAt
  rw [List.drop_append_of_le_length (by omega),
    List.take_append_of_le_length (by rw [List.length_drop]; omega)]

theorem numberAt_littleEndian {n : Nat} (h : n < Nat.pow 256 width) :
    numberAt (littleEndian width n) 0 width = n := by
  unfold numberAt
  rw [List.drop_zero, List.take_of_length_le (Nat.le_of_eq (length_littleEndian width n)),
    ofLittleEndian_littleEndian h]

end

/-! ## Records of one size -/

/-- All records of the type are written in the same number of bytes, and there is at least one. -/
class FixedSize (ρ : Type) [Record ρ] : Prop where
  size_pos : 0 < Record.size ρ
  length_encode (r : ρ) : (Record.encode r).length = Record.size ρ

section
variable {ρ : Type} [Record ρ]

theorem encodeAll_cons (r : ρ) (rs : List ρ) :
    encodeAll (r :: rs) = Record.encode r ++ encodeAll rs := rfl

variable [FixedSize ρ]

theorem length_encodeAll (rs : List ρ) :
    (encodeAll rs).length = rs.length * Record.size ρ := by
  induction rs with
  | nil => simp [encodeAll]
  | cons r rs ih =>
    rw [encodeAll_cons, List.length_append, ih, FixedSize.length_encode, List.length_cons,
      Nat.add_mul, Nat.one_mul, Nat.add_comm]

/-- The pieces of a message of records are the records. -/
theorem pieces_encodeAll (rs : List ρ) :
    pieces (Record.size ρ) rs.length (encodeAll rs) = rs.map Record.encode := by
  induction rs with
  | nil => rfl
  | cons r rs ih =>
    rw [List.length_cons, pieces, encodeAll_cons, List.take_left' (FixedSize.length_encode r),
      List.drop_left' (FixedSize.length_encode r), ih, List.map_cons]

/-- A message of records holds what reading each record gives. -/
theorem decodeAll_encodeAll (rs : List ρ) :
    decodeAll ρ (encodeAll rs) = .ok (rs.map fun r => Record.decode (Record.encode r)) := by
  have hpos : 0 < Record.size ρ := FixedSize.size_pos
  have hwhole : (encodeAll rs).length % Record.size ρ = 0 := by
    rw [length_encodeAll, Nat.mul_mod_left]
  have hcount : (encodeAll rs).length / Record.size ρ = rs.length := by
    rw [length_encodeAll, Nat.mul_div_cancel _ hpos]
  unfold decodeAll
  dsimp only
  rw [if_neg (by omega), hcount, pieces_encodeAll, List.map_map]
  rfl

end

/-! ## Plain numbers -/

theorem wordAt_encode (n : UInt64) : wordAt (Record.encode n) 0 = n := by
  rw [wordAt, show Record.encode n = littleEndian 8 n.toNat from rfl,
    numberAt_littleEndian n.toNat_lt, UInt64.ofNat_toNat]

theorem countAt_encode (n : UInt32) : countAt (Record.encode n) 0 = n := by
  rw [countAt, show Record.encode n = littleEndian 4 n.toNat from rfl,
    numberAt_littleEndian n.toNat_lt, UInt32.ofNat_toNat]

instance : FixedSize UInt16 := ⟨by decide, fun n => length_littleEndian 2 n.toNat⟩

instance : FixedSize UInt32 := ⟨by decide, fun n => length_littleEndian 4 n.toNat⟩

instance : FixedSize UInt64 := ⟨by decide, fun n => length_littleEndian 8 n.toNat⟩

instance : FixedSize Double := ⟨by decide, fun x => length_littleEndian 8 x.bits.toNat⟩

theorem decode_encode_double (x : Double) : Record.decode (Record.encode x) = x :=
  congrArg Double.mk (wordAt_encode x.bits)

/-- The first word of a message that goes on. -/
theorem wordAt_cons (n : UInt64) (rest : Bytes) : wordAt (Record.encode n ++ rest) 0 = n := by
  have h := FixedSize.length_encode n
  rw [wordAt, numberAt_append_left (by rw [h]; decide)]
  exact wordAt_encode n

/-- A word further on. -/
theorem wordAt_add (n : UInt64) (rest : Bytes) (offset : Nat) :
    wordAt (Record.encode n ++ rest) (offset + 8) = wordAt rest offset := by
  have h : (Record.encode n).length = 8 := FixedSize.length_encode n
  rw [wordAt, numberAt_append_right (by omega), h, Nat.add_sub_cancel]
  rfl

/-- The first count of a message that goes on. -/
theorem countAt_cons (n : UInt32) (rest : Bytes) : countAt (Record.encode n ++ rest) 0 = n := by
  have h := FixedSize.length_encode n
  rw [countAt, numberAt_append_left (by rw [h]; decide)]
  exact countAt_encode n

/-- A count further on. -/
theorem countAt_add (n : UInt32) (rest : Bytes) (offset : Nat) :
    countAt (Record.encode n ++ rest) (offset + 4) = countAt rest offset := by
  have h : (Record.encode n).length = 4 := FixedSize.length_encode n
  rw [countAt, numberAt_append_right (by omega), h, Nat.add_sub_cancel]
  rfl

/-! ## Records of a mesh message -/

theorem length_encodePoint (p : Point Double) : (encodePoint p).length = 24 :=
  length_encodeAll p.toList

instance : FixedSize Header := ⟨by decide, fun h => by
  show (Record.encode h.version ++ Record.encode h.kind ++ Record.encode h.reserved).length = 8
  simp [FixedSize.length_encode, Record.size]⟩

instance : FixedSize MeshHeader := ⟨by decide, fun h => by
  show (Record.encode h.header ++
    encodeAll [h.dimensions, h.vertices, h.edges, h.triangles]).length = 24
  simp [FixedSize.length_encode, length_encodeAll, Record.size]⟩

instance : FixedSize VertexRecord := ⟨by decide, fun v => by
  show (encodePoint v.position ++ Record.encode (indexToWord v.globalIndex)).length = 32
  simp [length_encodePoint, FixedSize.length_encode, Record.size]⟩

instance : FixedSize EdgeRecord := ⟨by decide, fun e => length_encodeAll [e.a, e.b]⟩

instance : FixedSize TriangleRecord := ⟨by decide, fun t => length_encodeAll [t.a, t.b, t.c]⟩

theorem decode_encode_header (h : Header) : Record.decode (Record.encode h) = h := by
  obtain ⟨version, kind, reserved⟩ := h
  have hbytes : Record.encode (Header.mk version kind reserved) = littleEndian 2 version.toNat ++
      (littleEndian 2 kind.toNat ++ littleEndian 4 reserved.toNat) := List.append_assoc _ _ _
  have hv : (littleEndian 2 version.toNat).length = 2 := length_littleEndian 2 _
  have hk : (littleEndian 2 kind.toNat).length = 2 := length_littleEndian 2 _
  show Header.mk (UInt16.ofNat (numberAt _ 0 2)) (UInt16.ofNat (numberAt _ 2 2)) (countAt _ 4) = _
  rw [hbytes]
  congr 1
  · rw [numberAt_append_left (by omega), numberAt_littleEndian version.toNat_lt,
      UInt16.ofNat_toNat]
  · rw [numberAt_append_right (by omega), hv, numberAt_append_left (by omega),
      numberAt_littleEndian kind.toNat_lt, UInt16.ofNat_toNat]
  · rw [countAt, numberAt_append_right (by omega), hv, numberAt_append_right (by omega), hk]
    exact countAt_encode reserved

theorem decode_encode_meshHeader (h : MeshHeader) : Record.decode (Record.encode h) = h := by
  have hl : (Record.encode h.header).length = 8 := FixedSize.length_encode h.header
  have hcount (offset : Nat) : countAt (Record.encode h) (8 + offset) =
      countAt (encodeAll [h.dimensions, h.vertices, h.edges, h.triangles]) offset := by
    rw [countAt, show Record.encode h = Record.encode h.header ++ _ from rfl,
      numberAt_append_right (by omega), hl, Nat.add_sub_cancel_left]
    rfl
  show MeshHeader.mk (Record.decode ((Record.encode h.header ++ _).take 8)) _ _ _ _ = _
  rw [List.take_left' hl, decode_encode_header, hcount 0, hcount 4, hcount 8, hcount 12]
  simp only [encodeAll_cons]
  rw [countAt_cons, countAt_add _ _ 0, countAt_cons, countAt_add _ _ 4, countAt_add _ _ 0,
    countAt_cons, countAt_add _ _ 8, countAt_add _ _ 4, countAt_add _ _ 0, countAt_cons]

theorem pointAt_encode (p : Point Double) (rest : Bytes) :
    pointAt (encodePoint p ++ rest) 0 = p := by
  have hx : encodePoint p ++ rest =
      Record.encode p.x.bits ++ (Record.encode p.y.bits ++ (Record.encode p.z.bits ++ rest)) := by
    simp [encodePoint, Point.toList, encodeAll, Record.encode]
  rw [pointAt, hx, wordAt_cons, wordAt_add _ _ 0, wordAt_cons, wordAt_add _ _ 8, wordAt_add _ _ 0,
    wordAt_cons]

/-- A global index is read back unless it is the number that stands for none. -/
theorem wordToIndex_indexToWord (index : Option UInt64) :
    wordToIndex (indexToWord index) = index.filter (· ≠ noIndex) := by
  cases index with
  | none => rfl
  | some g => by_cases h : g = noIndex <;> simp [indexToWord, wordToIndex, Option.filter, h]

theorem decode_encode_vertex (v : VertexRecord) : Record.decode (Record.encode v) =
    { v with globalIndex := v.globalIndex.filter (· ≠ noIndex) } := by
  have hl : (encodePoint v.position).length = 24 := length_encodePoint v.position
  show VertexRecord.mk (pointAt (encodePoint v.position ++ _) 0)
    (wordToIndex (wordAt (encodePoint v.position ++ _) 24)) = _
  rw [pointAt_encode, wordAt, numberAt_append_right (by omega), hl, ← wordToIndex_indexToWord]
  exact congrArg (fun w => VertexRecord.mk v.position (wordToIndex w))
    (wordAt_encode (indexToWord v.globalIndex))

theorem decode_encode_edge (e : EdgeRecord) : Record.decode (Record.encode e) = e := by
  show EdgeRecord.mk (wordAt (encodeAll [e.a, e.b]) 0) (wordAt (encodeAll [e.a, e.b]) 8) = e
  simp only [encodeAll_cons]
  rw [wordAt_cons, wordAt_add _ _ 0, wordAt_cons]

theorem decode_encode_triangle (t : TriangleRecord) : Record.decode (Record.encode t) = t := by
  show TriangleRecord.mk (wordAt (encodeAll [t.a, t.b, t.c]) 0)
    (wordAt (encodeAll [t.a, t.b, t.c]) 8) (wordAt (encodeAll [t.a, t.b, t.c]) 16) = t
  simp only [encodeAll_cons]
  rw [wordAt_cons, wordAt_add _ _ 0, wordAt_cons, wordAt_add _ _ 8, wordAt_add _ _ 0, wordAt_cons]

end Cosimulation.Wire

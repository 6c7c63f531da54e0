import Cosimulation.Geometry.Box
import Cosimulation.Wire.Bytes

/-!
# Records of meshes and boxes

A message starts with a header that gives the version of the format and the kind of the message. A
mesh message goes on with four counts and then the vertices, edges and triangles; a box message is
the header and the two corners.

A vertex without global index is written with the largest number in its place, so that this one
number cannot be sent as an index.
-/

namespace Cosimulation.Wire

/-- The version of the format that is written, and the only one that is read. -/
def currentVersion : UInt16 := 1

/-- The kind of a mesh message. -/
def meshKind : UInt16 := 1

/-- The kind of a box message. -/
def boxKind : UInt16 := 2

/-- Version and kind of a message. -/
structure Header where
  version : UInt16
  kind : UInt16
  reserved : UInt32
  deriving Repr, DecidableEq

/-- The header of a message of some kind in the current version. -/
def Header.ofKind (kind : UInt16) : Header := ⟨currentVersion, kind, 0⟩

/-- Insists on the current version and on a kind. -/
def Header.check (h : Header) (kind : UInt16) : Except FormatFault Unit :=
  if h.version ≠ currentVersion then .error (.version h.version.toNat)
  else if h.kind ≠ kind then .error (.kind kind.toNat h.kind.toNat)
  else .ok ()

/-- What precedes the entities of a mesh message. -/
structure MeshHeader where
  header : Header
  dimensions : UInt32
  vertices : UInt32
  edges : UInt32
  triangles : UInt32
  deriving Repr, DecidableEq

/-- A vertex: its position and the index it has across all processes. -/
structure VertexRecord where
  position : Point Double
  globalIndex : Option UInt64
  deriving Repr, DecidableEq

/-- An edge: its two vertices. -/
structure EdgeRecord where
  a : UInt64
  b : UInt64
  deriving Repr, DecidableEq

/-- A triangle: its three edges. -/
structure TriangleRecord where
  a : UInt64
  b : UInt64
  c : UInt64
  deriving Repr, DecidableEq

/-- A box message. -/
structure BoxRecord where
  header : Header
  box : Box Double

/-- The number written for a vertex without global index. -/
def noIndex : UInt64 := 0xFFFFFFFFFFFFFFFF

/-- A global index as a number. -/
def indexToWord (index : Option UInt64) : UInt64 := index.getD noIndex

/-- A number as a global index. -/
def wordToIndex (word : UInt64) : Option UInt64 := if word = noIndex then none else some word

/-- The 64-bit number at an offset. -/
def wordAt (bytes : Bytes) (offset : Nat) : UInt64 := UInt64.ofNat (numberAt bytes offset 8)

/-- The 32-bit number at an offset. -/
def countAt (bytes : Bytes) (offset : Nat) : UInt32 := UInt32.ofNat (numberAt bytes offset 4)

/-- Three numbers in a row. -/
def encodePoint (p : Point Double) : Bytes := encodeAll p.toList

/-- The point at an offset. -/
def pointAt (bytes : Bytes) (offset : Nat) : Point Double :=
  ⟨⟨wordAt bytes offset⟩, ⟨wordAt bytes (offset + 8)⟩, ⟨wordAt bytes (offset + 16)⟩⟩

instance : Record Header where
  size := 8
  encode h := Record.encode h.version ++ Record.encode h.kind ++ Record.encode h.reserved
  decode bytes :=
    ⟨UInt16.ofNat (numberAt bytes 0 2), UInt16.ofNat (numberAt bytes 2 2), countAt bytes 4⟩

instance : Record MeshHeader where
  size := 24
  encode h :=
    Record.encode h.header ++ encodeAll [h.dimensions, h.vertices, h.edges, h.triangles]
  decode bytes :=
    ⟨Record.decode (bytes.take 8), countAt bytes 8, countAt bytes 12, countAt bytes 16,
      countAt bytes 20⟩

instance : Record VertexRecord where
  size := 32
  encode v := encodePoint v.position ++ Record.encode (indexToWord v.globalIndex)
  decode bytes := ⟨pointAt bytes 0, wordToIndex (wordAt bytes 24)⟩

instance : Record EdgeRecord where
  size := 16
  encode e := encodeAll [e.a, e.b]
  decode bytes := ⟨wordAt bytes 0, wordAt bytes 8⟩

instance : Record TriangleRecord where
  size := 24
  encode t := encodeAll [t.a, t.b, t.c]
  decode bytes := ⟨wordAt bytes 0, wordAt bytes 8, wordAt bytes 16⟩

instance : Record BoxRecord where
  size := 56
  encode r := Record.encode r.header ++ encodePoint r.box.lower ++ encodePoint r.box.upper
  decode bytes := ⟨Record.decode (bytes.take 8), ⟨pointAt bytes 8, pointAt bytes 32⟩⟩

/-- The record of a box. -/
def BoxRecord.ofBox (box : Box Double) : BoxRecord := ⟨.ofKind boxKind, box⟩

end Cosimulation.Wire

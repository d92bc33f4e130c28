import ImageProbe.Walk

namespace ImageProbe

namespace Tiff

open Reading

inductive ByteOrder
  | little
  | big
  deriving DecidableEq

def ByteOrder.number : ByteOrder → Bytes → Nat
  | little => littleEndian
  | big => bigEndian

def byteOrder? (mark : Bytes) : Option ByteOrder :=
  if mark = [0x49, 0x49, 0x2a, 0] then some .little
  else if mark = [0x4d, 0x4d, 0, 0x2a] then some .big
  else none

def widthTag : Nat := 256

def heightTag : Nat := 257

def entryLength : Nat := 12

/-- The value of a directory entry, left-justified in its last four bytes; the field type alone if
it is no byte, short or long. -/
def value (order : ByteOrder) (entry : Bytes) : Except Nat Nat :=
  match order.number (slice entry 2 2) with
  | 1 => .ok (order.number (slice entry 8 1))
  | 3 => .ok (order.number (slice entry 8 2))
  | 4 => .ok (order.number (slice entry 8 4))
  | type => .error type

def dimension (order : ByteOrder) (entry : Bytes) : Reading Nat :=
  match value order entry with
  | .ok n => pure n
  | .error type => do
    writeNote (.debug s!"dimension tag with field type {type}")
    refuse .tiff .unsupportedFieldType

def entries (order : ByteOrder) : Nat → Nat → Nat → Reading ImageInfo
  | 0, _, _ => refuse .tiff .dimensionsMissing
  | left + 1, width, height => do
    checkStop
    let entry ← exactly entryLength
    let tag := order.number (slice entry 0 2)
    if tag = widthTag ∨ tag = heightTag then
      let n ← dimension order entry
      let (width, height) := if tag = widthTag then (n, height) else (width, n)
      if 0 < width ∧ 0 < height then pure ⟨.tiff, width, height⟩
      else entries order left width height
    else entries order left width height

def reading : Reading ImageInfo := do
  let header ← exactly 8
  match byteOrder? (header.take 4) with
  | none => refuse .tiff .invalidSignature
  | some order =>
    let offset := order.number (slice header 4 4)
    require .tiff (8 ≤ offset) .directoryInHeader
    skip (offset - 8)
    let count ← order.number <$> exactly 2
    entries order count 0 0

def decoder : Decoder := .ofReading reading

end Tiff

end ImageProbe

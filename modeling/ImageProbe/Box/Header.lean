import ImageProbe.Bytes.Utf8
import ImageProbe.Walk

namespace ImageProbe

namespace Box

open Reading

/-- What a box begins with; `size` counts the header, which is `offset` bytes long. -/
structure Header where
  name : Bytes
  size : Nat
  offset : Nat

def openSize : Nat := range64 - 1

def headLength : Nat := 8

namespace Header

def payload (h : Header) : Nat := h.size - h.offset

def isOpen (h : Header) : Bool := h.size = openSize

end Header

def header (format : ImageFormat) (head : Bytes) : Reading Header := do
  let size := bigEndian (head.take 4)
  let name := head.drop 4
  if size = 0 then pure ⟨name, openSize, 8⟩
  else if size = 1 then
    let size ← beNumber 8
    require format (16 ≤ size) .wideBoxSize
    pure ⟨name, size, 16⟩
  else
    require format (8 ≤ size) .boxSize
    pure ⟨name, size, 8⟩

end Box

end ImageProbe

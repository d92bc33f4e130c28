import ImageProbe.Walk

namespace ImageProbe

structure FixedHeader where
  format : ImageFormat
  length : Nat
  accepts : Bytes → Bool
  extent : Bytes → Nat × Nat

namespace FixedHeader

open Reading

def reading (h : FixedHeader) : Reading ImageInfo := do
  let bs ← exactly h.length
  require h.format (h.accepts bs) .invalidSignature
  let (width, height) := h.extent bs
  pure ⟨h.format, width, height⟩

def decoder (h : FixedHeader) : Decoder := .ofReading h.reading

end FixedHeader

def pngSignature : Bytes := [0x89, 0x50, 0x4e, 0x47, 0x0d, 0x0a, 0x1a, 0x0a]

def png : FixedHeader where
  format := .png
  length := 24
  accepts bs := bs.take 8 = pngSignature
  extent bs := (bigEndian (slice bs 16 4), bigEndian (slice bs 20 4))

def gif : FixedHeader where
  format := .gif
  length := 10
  accepts bs := bs.take 6 = ascii "GIF87a" || bs.take 6 = ascii "GIF89a"
  extent bs := (littleEndian (slice bs 6 2), littleEndian (slice bs 8 2))

def pdf : FixedHeader where
  format := .pdf
  length := 8
  accepts bs := bs.take 5 = ascii "%PDF-"
  extent _ := (1, 1)

end ImageProbe

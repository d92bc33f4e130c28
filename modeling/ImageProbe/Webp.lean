import ImageProbe.Bytes.BitCursor
import ImageProbe.Bytes.Escaped
import ImageProbe.Walk

namespace ImageProbe

namespace Webp

open Reading

def lossyHeaderLength : Nat := 10

def losslessHeaderLength : Nat := 5

def startCode : Bytes := [0x9d, 0x01, 0x2a]

def lossyExtent (head : Bytes) : Except Defect (Nat × Nat) :=
  if head.length < lossyHeaderLength then .error .lossyHeaderShort
  else if littleEndian (slice head 0 1) % 2 ≠ 0 then .error .notKeyframe
  else if slice head 3 3 ≠ startCode then .error .invalidStartCode
  else .ok (littleEndian (slice head 6 2) % 0x4000, littleEndian (slice head 8 2) % 0x4000)

def losslessFields : BitReading (Nat × Nat × Nat) := do
  let width ← bits 14
  let height ← bits 14
  let _ ← bits 1
  let version ← bits 3
  pure (width, height, version)

def losslessExtent (head : Bytes) : Except Defect (Nat × Nat) :=
  if head.length < losslessHeaderLength then .error .losslessHeaderShort
  else if slice head 0 1 ≠ [0x2f] then .error .invalidLosslessSignature
  else match losslessFields.run (.ofBytes (head.drop 1)) with
    | .error _ => .error .losslessHeaderShort
    | .ok ((width, height, version), _) =>
      if version = 0 then .ok (width + 1, height + 1) else .error .unsupportedLosslessVersion

def canvasExtent (head : Bytes) : Nat × Nat :=
  (littleEndian (slice head 4 3) + 1, littleEndian (slice head 7 3) + 1)

def ofExtent (size : Except Defect (Nat × Nat)) : Reading ImageInfo :=
  match size with
  | .ok (width, height) => pure ⟨.webp, width, height⟩
  | .error defect => refuse .webp defect

/-- A chunk is padded to an even length, but the padding may be missing at the end. -/
def padded (length remaining : Nat) : Nat := min (length + length % 2) remaining

/-- Goes through the chunks in the `remaining` bytes of the form: alpha data is passed over, any
other chunk has to tell the size. -/
def chunks (remaining : Nat) : Reading ImageInfo := do
  checkStop
  if remaining < 8 then refuse .webp .imageChunkMissing
  else
    let name ← exactly 4
    let length ← leNumber 4
    if remaining - 8 < length then refuse .webp .chunkPastForm
    else if name = ascii "ALPH" then
      writeNote (.debug s!"ALPH: {length} bytes (skipped)")
      skip (padded length (remaining - 8))
      chunks (remaining - 8 - padded length (remaining - 8))
    else if name = ascii "VP8 " then
      let head ← exactly (min lossyHeaderLength length)
      ofExtent (lossyExtent head)
    else if name = ascii "VP8L" then
      let head ← exactly (min losslessHeaderLength length)
      ofExtent (losslessExtent head)
    else if name = ascii "VP8X" then
      require .webp (length = 10) .extendedLength
      let head ← exactly 10
      ofExtent (.ok (canvasExtent head))
    else
      writeNote (.debug ("unexpected chunk " ++ quoted (escaped name)))
      refuse .webp .unexpectedChunk
termination_by remaining

def reading : Reading ImageInfo := do
  let head ← exactly 12
  require .webp (slice head 0 4 = ascii "RIFF") .riffMissing
  require .webp (slice head 8 4 = ascii "WEBP") .notWebp
  let length := littleEndian (slice head 4 4)
  require .webp (4 ≤ length) .riffTooSmall
  chunks (length - 4)

def decoder : Decoder := .ofReading reading

end Webp

end ImageProbe

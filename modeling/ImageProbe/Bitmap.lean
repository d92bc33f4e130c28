import ImageProbe.Walk

namespace ImageProbe

namespace Bitmap

open Reading

def fileHeaderLength : Nat := 14

def infoHeaderLength : Nat := 40

def coreHeaderLength : Nat := 12

def reading : Reading ImageInfo := do
  let file ← exactly fileHeaderLength
  require .bmp (file.take 2 = ascii "BM") .invalidSignature
  let length ← leNumber 4
  if infoHeaderLength ≤ length then
    let sizes ← exactly 8
    let width := littleEndian (sizes.take 4)
    require .bmp (! isNegative range32 width) .negativeWidth
    pure ⟨.bmp, width, magnitude range32 (littleEndian (sizes.drop 4))⟩
  else
    require .bmp (coreHeaderLength ≤ length) .dibTooSmall
    let sizes ← exactly 4
    pure ⟨.bmp, littleEndian (sizes.take 2), magnitude range16 (littleEndian (sizes.drop 2))⟩

def decoder : Decoder := .ofReading reading

def headerLengths : List Nat := [40, 52, 56, 108, 124]

def isHeaderless (dib : Bytes) : Bool :=
  infoHeaderLength ≤ dib.length && littleEndian (slice dib 0 4) ∈ headerLengths &&
    littleEndian (slice dib 12 2) = 1

def paletteColours (dib : Bytes) : Nat :=
  let depth := littleEndian (slice dib 14 2)
  let used := littleEndian (slice dib 32 4)
  if used = 0 ∧ depth ≤ 8 then 1 <<< depth else used

def pixelOffset (dib : Bytes) : Nat :=
  4 * paletteColours dib + (fileHeaderLength + infoHeaderLength)

/-- Completes a bitmap that has no file header and whose height counts the rows of a mask too:
the header is put in front and the height is halved. -/
def complete (dib : Bytes) : Except ProbeError Bytes :=
  let total := dib.length + fileHeaderLength
  if dib.length < infoHeaderLength then .error (.malformed .bmp .dibTooShort)
  else if range32 ≤ total then .error (.malformed .bmp .imageTooLarge)
  else if range32 ≤ pixelOffset dib then .error (.malformed .bmp .paletteTooLarge)
  else .ok (ascii "BM" ++ toLittleEndian 4 total ++ [0, 0, 0, 0] ++
    toLittleEndian 4 (pixelOffset dib) ++ dib.take 8 ++
    toLittleEndian 4 (littleEndian (slice dib 8 4) / 2) ++ dib.drop 12)

end Bitmap

end ImageProbe

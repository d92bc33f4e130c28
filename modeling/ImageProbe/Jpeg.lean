import ImageProbe.Walk

namespace ImageProbe

namespace Jpeg

open Reading

/-- Where the search for a frame stands: at the two bytes of a marker, one byte behind the last
one read, or among the fill bytes of a marker. -/
inductive Scan
  | marker
  | sliding (last : UInt8)
  | filling

abbrev Search := Reading (Step Scan ImageInfo)

def isFrame (marker : UInt8) : Bool :=
  0xc0 ≤ marker && marker ≤ 0xcf && marker ≠ 0xc4 && marker ≠ 0xc8 && marker ≠ 0xcc

def isRestart (marker : UInt8) : Bool := 0xd0 ≤ marker && marker ≤ 0xd7

def endOfImage : UInt8 := 0xd9

def startOfScan : UInt8 := 0xda

def nextMarker : Search := do
  checkStop
  pure (.more .marker)

def frame : Search := do
  let head ← exactly 5
  let precision := bigEndian (slice head 0 1)
  if precision = 8 then
    pure (.done ⟨.jpeg, bigEndian (slice head 3 2), bigEndian (slice head 1 2)⟩)
  else
    writeNote (.warn s!"jpeg: {precision}-bit precision is not supported")
    refuse .jpeg .unsupportedPrecision

def segment (marker : UInt8) : Search :=
  if marker = endOfImage then refuse .jpeg .frameMissing
  else if isRestart marker then nextMarker
  else do
    let length ← beNumber 2
    let code := hex marker
    if length ≤ 2 then
      writeNote (.debug s!"marker 0x{code} with segment length {length} (ignored)")
      nextMarker
    else if isFrame marker then frame
    else if marker = startOfScan then refuse .jpeg .frameMissing
    else
      writeNote (.debug s!"marker 0x{code}: {length - 2} bytes (skipped)")
      skip (length - 2)
      nextMarker

def atBytes (a b : UInt8) : Search :=
  if a ≠ 0xff then pure (.more (.sliding b))
  else if b = 0 then nextMarker
  else if b = 0xff then pure (.more .filling)
  else segment b

def start : Search := do
  let mark ← exactly 2
  require .jpeg (mark = [0xff, 0xd8]) .startMissing
  nextMarker

def reach : Scan → Nat
  | .marker => 1
  | _ => 0

def round : Scan → Bytes → Search
  | .marker, bs => atBytes (bs.getD 0 0) (bs.getD 1 0)
  | .sliding last, bs => atBytes last (bs.getD 0 0)
  | .filling, bs =>
    let b := bs.getD 0 0
    if b = 0xff then pure (.more .filling) else segment b

def decoder : Decoder where
  State := Scan
  start := Step.settle <$> start.run
  reach := reach
  round state bs := Step.settle <$> (round state bs).run
  close _ e := pure (.error e)

end Jpeg

end ImageProbe

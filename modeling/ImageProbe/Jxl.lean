import ImageProbe.Box.Visit
import ImageProbe.Jxl.SizeHeader

namespace ImageProbe

namespace Jxl

open Reading

def signature : Bytes := [0, 0, 0, 0x0c, 0x4a, 0x58, 0x4c, 0x20, 0x0d, 0x0a, 0x87, 0x0a]

abbrev Outcome := Except ProbeError Bytes

def take (n : Nat) (codestream : Bytes) : Reading Bytes := do
  let part ← exactly (min n (longestHeader - codestream.length))
  pure (codestream ++ part)

def whole (box : Box.Header) (codestream : Bytes) : Reading (Step Bytes Bytes) := do
  require .jxl (shortestHeader ≤ box.payload) .invalidCodestreamBox
  .done <$> take box.payload codestream

/-- A box with a part of the codestream behind its number, whose top bit marks the last one. -/
def part (box : Box.Header) (codestream : Bytes) : Reading (Step Bytes Bytes) := do
  require .jxl (4 ≤ box.payload) .invalidPartBox
  let number ← beNumber 4
  let codestream ← take (box.payload - 4) codestream
  if codestream.length = longestHeader then pure (.done codestream)
  else if ! number.testBit 31 then pure (.more codestream)
  else if shortestHeader ≤ codestream.length then pure (.done codestream)
  else refuse .jxl .invalidCodestreamBox

def lookInto (box : Box.Header) (codestream : Bytes) : Reading (Step Bytes Bytes) := do
  checkStop
  if box.name = ascii "jxlc" then whole box codestream
  else if box.name = ascii "jxlp" then part box codestream
  else pure (.more codestream)

def box (head codestream : Bytes) : Script (Step Bytes Outcome) := do
  match ← (Box.header .jxl head).run with
  | .error e => pure (.done (.error e))
  | .ok header =>
    header.visit (fun _ e => .error e) (Step.settle <$> (lookInto header codestream).run)

def start : Reading (Step Bytes Bytes) := do
  let first ← exactly 2
  if first = marker then .done <$> take longestHeader first
  else
    let rest ← exactly 10
    require .jxl (first ++ rest = signature) .invalidContainerSignature
    pure (.more [])

def walk : Walk Outcome where
  State := Bytes
  start := Step.settle <$> start.run
  reach _ := Box.headLength - 1
  round codestream head := box head codestream
  close _ e := pure (.error e)

def conclude : Outcome → Script (Except ProbeError ImageInfo)
  | .error e => pure (.error e)
  | .ok codestream =>
    match size codestream with
    | .ok (width, height) => pure (.ok ⟨.jxl, width, height⟩)
    | .error (.defect d) => pure (.error (.malformed .jxl d))
    | .error (.shortage s) => do
      writeNote (.debug s!"size header needs {s.requested} more bits, {s.remaining} left")
      pure (.error (.malformed .jxl .sizeHeaderTruncated))

def decoder : Decoder := walk.andThen conclude

end Jxl

end ImageProbe

import ImageProbe.Box.Visit
import ImageProbe.Heif.Findings

namespace ImageProbe

namespace Heif

open Reading

abbrev Outcome := Except ProbeError Unit × Findings

def refusal (f : Findings) (defect : Defect) : Except ProbeError Unit :=
  .error (.malformed f.errorFormat defect)

def needs (f : Findings) (box : Box.Header) (n : Nat) (defect : Defect) : Reading Unit :=
  require f.errorFormat (n ≤ box.payload) defect

def compatibleFormat (brands : BrandRule) : Nat → Reading (Option ImageFormat)
  | 0 => pure none
  | n + 1 => do
    match brands.format? (← exactly 4) with
    | some format => pure (some format)
    | none => compatibleFormat brands n

def fileType (brands : BrandRule) (box : Box.Header) (f : Findings) : Reading Findings := do
  needs f box 8 .fileTypeTooShort
  let major ← exactly 4
  match brands.format? major with
  | some format => pure { f with format := some format }
  | none =>
    skip 4
    match ← compatibleFormat brands ((box.payload - 8) / 4) with
    | some format => pure { f with format := some format }
    | none =>
      let brand := Utf8.lossy major
      writeNote (.debug s!"ftyp major brand '{brand}' not accepted")
      refuse f.errorFormat brands.defect

def handler (box : Box.Header) (f : Findings) : Reading Unit := do
  needs f box 12 .handlerTooShort
  let kind := slice (← exactly 12) 8 4
  if kind ≠ ascii "pict" then
    let name := Utf8.lossy kind
    writeNote (.debug s!"hdlr: expected 'pict', actual '{name}'")
    refuse f.errorFormat .handlerNotPicture

def extent (box : Box.Header) (f : Findings) : Reading Findings := do
  needs f box 12 .extentsTooShort
  skip 4
  let width ← beNumber 4
  let height ← beNumber 4
  writeNote (.debug s!"ispe {width}x{height}")
  pure (f.addExtent width height)

def rotation (box : Box.Header) (f : Findings) : Reading Findings := do
  needs f box 1 .rotationTooShort
  let quarters := (← beNumber 1) % 4
  writeNote (.debug s!"irot {quarters}")
  pure (f.rotate quarters)

def reading (f : Findings) (p : Reading Findings) : Script (Step Findings Outcome) := do
  match ← p.run with
  | .ok f => pure (.more f)
  | .error e => pure (.done (.error e, f))

/-- The boxes inside a box: a walk given the bytes they have. -/
abbrev Children := Nat → Findings → Script Outcome

/-- Data that ends inside a container ends the container alone. -/
def enclosed (depth : Nat) (children : Children) (room : Nat) (f : Findings) : Script Outcome := do
  match ← children room f with
  | (.error .endOfData, f) =>
    writeNote (.debug s!"truncated container at depth {depth}")
    pure (.ok (), f)
  | outcome => pure outcome

/-- The metadata ends the level, and has to leave nothing to be found. -/
def metadata (children : Children) (box : Box.Header) (f : Findings) : Script Outcome := do
  match ← (do needs f box 4 .metaTooShort; skip 4 : Reading Unit).run with
  | .error e => pure (.error e, f)
  | .ok () =>
    match ← (if box.payload = 4 then pure (.ok (), f) else children (box.payload - 4) f) with
    | (.error e, f) => pure (.error e, f)
    | (.ok (), f) => pure (if f.isKnown then .ok () else refusal f .metaWithoutDimensions, f)

/-- Looks into one box. A bad handler ends the level quietly. -/
def content (brands : BrandRule) (children : Children) (box : Box.Header) (f : Findings) :
    Script (Step Findings Outcome) := do
  if box.name = ascii "ftyp" then reading f (fileType brands box f)
  else if box.name = ascii "meta" then .done <$> metadata children box f
  else if box.name = ascii "hdlr" then
    match ← (handler box f).run with
    | .ok () => pure (.more f)
    | .error e =>
      writeNote (.debug s!"hdlr: {e.message} (ignored)")
      pure (.done (.ok (), f))
  else if box.name = ascii "iprp" ∨ box.name = ascii "ipco" then
    match ← children box.payload f with
    | (.ok (), f) => pure (.more f)
    | outcome => pure (.done outcome)
  else if box.name = ascii "ispe" then reading f (extent box f)
  else if box.name = ascii "irot" then reading f (rotation box f)
  else if box.name = ascii "mdat" then pure (.done (refusal f .mediaBeforeMeta, f))
  else pure (.more f)

def lookInto (brands : BrandRule) (children : Children) (box : Box.Header) (f : Findings) :
    Script (Step Findings Outcome) := do
  match ← checkStop.run with
  | .error e => pure (.done (.error e, f))
  | .ok () => content brands children box f

def levelEnd : ProbeError → Except ProbeError Unit
  | .endOfData => .ok ()
  | e => .error e

def box (brands : BrandRule) (children : Children) (format : ImageFormat) (head : Bytes)
    (f : Findings) : Script (Step Findings Outcome) := do
  match ← (Box.header format head).run with
  | .error e => pure (.done (levelEnd e, f))
  | .ok header => header.visit (fun f e => (.error e, f)) (lookInto brands children header f)

def boxes (brands : BrandRule) (children : Children) (format : ImageFormat) :
    Nat → Findings → Script Outcome
  | 0, f => .fetch Box.headLength fun haul => .done (levelEnd haul.shortage, f)
  | most + 1, f => .fetch Box.headLength fun haul =>
    if haul.bytes.length < Box.headLength then .done (levelEnd haul.shortage, f)
    else do
      match ← box brands children format haul.bytes f with
      | .done outcome => pure outcome
      | .more f => boxes brands children format most f

def maxDepth : Nat := 16

/-- The boxes in `room` bytes, with as many levels of nesting to spare, this one included. A box
takes eight bytes at least. -/
def level (brands : BrandRule) : Nat → Children
  | 0, _, f => pure (refusal f .boxesTooDeep, f)
  | spare + 1, room, f =>
    boxes brands (enclosed (maxDepth - spare) (level brands spare)) f.errorFormat
      (room / Box.headLength) f

end Heif

end ImageProbe

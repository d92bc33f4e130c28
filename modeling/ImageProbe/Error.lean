import ImageProbe.Format

namespace ImageProbe

inductive FaultKind
  | unexpectedEnd
  | interrupted
  | invalidData
  | other
  | named (name : String)
  deriving DecidableEq

structure Fault where
  kind : FaultKind
  text : String
  deriving DecidableEq

inductive StopReason
  | cancelled
  | timedOut
  deriving DecidableEq

def StopReason.message : StopReason → String
  | cancelled => "operation cancelled"
  | timedOut => "operation timed out"

inductive Defect
  | invalidSignature
  | dibTooSmall
  | negativeWidth
  | dibTooShort
  | imageTooLarge
  | paletteTooLarge
  | directoryInHeader
  | unsupportedFieldType
  | dimensionsMissing
  | startMissing
  | frameMissing
  | unsupportedPrecision
  | riffMissing
  | notWebp
  | riffTooSmall
  | imageChunkMissing
  | chunkPastForm
  | lossyHeaderShort
  | notKeyframe
  | invalidStartCode
  | losslessHeaderShort
  | invalidLosslessSignature
  | unsupportedLosslessVersion
  | extendedLength
  | unexpectedChunk
  | boxSize
  | wideBoxSize
  | boxesTooDeep
  | fileTypeTooShort
  | brandsNotHeic
  | brandsNotHeif
  | metaTooShort
  | metaWithoutDimensions
  | handlerTooShort
  | handlerNotPicture
  | extentsTooShort
  | rotationTooShort
  | mediaBeforeMeta
  | dimensionsNotFound
  | invalidContainerSignature
  | invalidCodestreamBox
  | invalidPartBox
  | codestreamTooShort
  | codestreamMarkerMissing
  | widthOutOfRange
  | sizeHeaderTruncated
  | invalidIconDirectory
  | emptyIconDirectory
  | iconDataOutOfBounds
  | rootNotSvg
  | other (text : String)
  deriving DecidableEq

def Defect.message : Defect → String
  | invalidSignature => "invalid signature"
  | dibTooSmall => "DIB header too small"
  | negativeWidth => "negative width"
  | dibTooShort => "DIB header too short"
  | imageTooLarge => "image too large"
  | paletteTooLarge => "palette too large"
  | directoryInHeader => "IFD offset points into the header"
  | unsupportedFieldType => "unsupported dimension data type"
  | dimensionsMissing => "image dimensions are not specified"
  | startMissing => "missing SOI marker"
  | frameMissing => "missing SOF marker"
  | unsupportedPrecision => "unsupported precision"
  | riffMissing => "missing RIFF header"
  | notWebp => "RIFF form is not WEBP"
  | riffTooSmall => "RIFF size too small"
  | imageChunkMissing => "no image chunk"
  | chunkPastForm => "chunk extends past the RIFF form"
  | lossyHeaderShort => "VP8 frame header too short"
  | notKeyframe => "VP8 stream doesn't start with a keyframe"
  | invalidStartCode => "invalid VP8 start code"
  | losslessHeaderShort => "VP8L header too short"
  | invalidLosslessSignature => "invalid VP8L signature"
  | unsupportedLosslessVersion => "unsupported VP8L version"
  | extendedLength => "VP8X chunk must be 10 bytes"
  | unexpectedChunk => "unexpected chunk"
  | boxSize => "malformed box size"
  | wideBoxSize => "malformed wide box size"
  | boxesTooDeep => "boxes are nested too deeply"
  | fileTypeTooShort => "invalid ftyp data"
  | brandsNotHeic => "image is not compatible with heic"
  | brandsNotHeif => "image is not compatible with heic/avif"
  | metaTooShort => "invalid meta data"
  | metaWithoutDimensions => "dimensions data wasn't found in meta box"
  | handlerTooShort => "invalid hdlr data"
  | handlerNotPicture => "invalid handler, expected pict"
  | extentsTooShort => "invalid ispe data"
  | rotationTooShort => "invalid irot data"
  | mediaBeforeMeta => "mdat box occurred before meta box"
  | dimensionsNotFound => "dimensions data wasn't found"
  | invalidContainerSignature => "invalid header"
  | invalidCodestreamBox => "invalid codestream box"
  | invalidPartBox => "invalid jxlp box"
  | codestreamTooShort => "codestream header too short"
  | codestreamMarkerMissing => "missing codestream marker"
  | widthOutOfRange => "width out of range"
  | sizeHeaderTruncated => "truncated size header"
  | invalidIconDirectory => "invalid directory header"
  | emptyIconDirectory => "empty directory"
  | iconDataOutOfBounds => "image data out of bounds"
  | rootNotSvg => "root element is not svg"
  | other text => text

inductive ProbeError
  | unknownFormat
  | malformed (format : ImageFormat) (defect : Defect)
  | unsupportedEmbedded (format : ImageFormat)
  | endOfData
  | transport (fault : Fault)
  /-- Memory is not modelled, so no run ends with this one. -/
  | outOfMemory
  | limitExceeded (limit : String)
  | stopped (reason : StopReason)
  deriving DecidableEq

namespace ProbeError

def message : ProbeError → String
  | unknownFormat => "unknown image format"
  | malformed format defect => s!"invalid {format} format: {defect.message}"
  | unsupportedEmbedded format => s!"can't load {format} from ICO"
  | endOfData => "EOF"
  | transport fault => fault.text
  | outOfMemory => "OOM"
  | limitExceeded limit => limit
  | stopped reason => s!"Stopped: {reason.message}"

def ofFault (fault : Fault) : ProbeError :=
  if fault.kind = .unexpectedEnd then endOfData else transport fault

def toFault : ProbeError → Fault
  | transport fault => fault
  | e@(malformed ..) | e@unknownFormat => ⟨.invalidData, e.message⟩
  | endOfData => ⟨.unexpectedEnd, endOfData.message⟩
  | e => ⟨.other, e.message⟩

end ProbeError

end ImageProbe

import ImageProbe.Bitmap
import ImageProbe.Icon.Directory
import ImageProbe.Stream.Source
import ImageProbe.Table

namespace ImageProbe

namespace Icon

structure Embedded where
  info : ImageInfo
  offset : Nat
  size : Nat
  data : Bytes
  completed : Bool

/-- The outcome of a question to an icon; `asked` holds the formats that the caller was asked
about. -/
structure Resolution where
  result : Except ProbeError Embedded
  asked : List ImageFormat := []
  checks : Nat
  log : List Note

abbrev Account := Nat × List Note

def probeBytes (table : Table) (limits : Limits) (stop : Stop) (bs : Bytes) (a : Account) :
    Except ProbeError ImageInfo × Account :=
  let ahead : LookAhead Tape := { inner := ⟨bs, none⟩ }
  let (result, s) := table.probe limits stop ⟨ahead, a.1, a.2⟩
  (result, s.checks, s.log)

def readBytes {α : Type} (p : Reading α) (stop : Stop) (bs : Bytes) (a : Account) :
    Except ProbeError α × Account :=
  let tape : Tape := ⟨bs, none⟩
  let (result, s) := p.run.run stop ⟨tape, a.1, a.2⟩
  (result, s.checks, s.log)

def complete (limits : Limits) (stop : Stop) (e : Entry) (bs : Bytes) (a : Account) :
    Except ProbeError Embedded × Account :=
  match limits.allow (bs.length + Bitmap.fileHeaderLength), Bitmap.complete bs with
  | .error err, _ => (.error err, a)
  | .ok (), .error err => (.error err, a)
  | .ok (), .ok file =>
    let (info, a) := readBytes Bitmap.reading stop file a
    (info.map fun info => ⟨info, e.offset, e.size, file, true⟩, a)

def mayBeHeaderless (err : ProbeError) (bs : Bytes) : Bool :=
  match err with
  | .stopped _ => false
  | _ => Bitmap.isHeaderless bs

def identify (table : Table) (limits : Limits) (stop : Stop) (e : Entry) (bs : Bytes)
    (a : Account) : Except ProbeError Embedded × Account :=
  match probeBytes table limits stop bs a with
  | (.ok info, a) => (.ok ⟨info, e.offset, e.size, bs, false⟩, a)
  | (.error err, checks, log) =>
    if mayBeHeaderless err bs then
      let retry := Note.warn (s!"embedded image not recognized ({err.message}), " ++
        "retrying as BMP without file header")
      complete limits stop e bs (checks, retry :: log)
    else (.error err, checks, log)

def embedded (table : Table) (limits : Limits) (stop : Stop) (icon : Bytes) :
    Except ProbeError Embedded × Account :=
  match readBytes directory stop icon (0, []) with
  | (.error err, a) => (.error err, a)
  | (.ok e, a) =>
    if e.offset + e.size ≤ icon.length then
      identify table limits stop e (slice icon e.offset e.size) a
    else (.error (.malformed .ico .iconDataOutOfBounds), a)

/-- The best image of an icon, which must not be an icon itself and must be of a format that the
caller can load. -/
def resolve (table : Table) (limits : Limits) (stop : Stop) (canLoad : ImageFormat → Bool)
    (icon : Bytes) : Resolution :=
  match embedded table limits stop icon with
  | (.error err, checks, log) => ⟨.error err, [], checks, log⟩
  | (.ok image, checks, log) =>
    let format := image.info.format
    let unsupported : Except ProbeError Embedded := .error (.unsupportedEmbedded format)
    if format = .ico then ⟨unsupported, [], checks, log⟩
    else ⟨if canLoad format then .ok image else unsupported, [format], checks, log⟩

end Icon

end ImageProbe

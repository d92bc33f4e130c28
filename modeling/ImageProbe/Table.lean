import ImageProbe.Bytes.Escaped
import ImageProbe.Limits
import ImageProbe.Markup.Root
import ImageProbe.Stream.LookAhead

namespace ImageProbe

structure Entry where
  pattern : Bytes
  decoder : Decoder

namespace Entry

def wildcard : UInt8 := 0x3f

def exactness (e : Entry) : Nat := (e.pattern.filter (· ≠ wildcard)).length

def accepts : Bytes → Bytes → Bool
  | [], [] => true
  | p :: ps, b :: bs => (p = b || p = wildcard) && accepts ps bs
  | _, _ => false

def describe (e : Entry) : String :=
  let pattern := quoted (escaped e.pattern)
  s!"FormatEntry \x7b magic: {pattern} \x7d"

end Entry

/-- The entries in the order in which they are tried: those with more exact bytes come first, and
among equals those that were registered before. -/
abbrev Table := List Entry

namespace Table

def empty : Table := []

def register : Table → Entry → Table
  | [], e => [e]
  | f :: t, e => if e.exactness ≤ f.exactness then f :: register t e else e :: f :: t

variable {ρ : Type} [ByteReader ρ]

def search : Table → LookAhead ρ → Except Fault (Option Entry) × LookAhead ρ
  | [], s => (.ok none, s)
  | e :: t, s =>
    match s.look e.pattern.length with
    | (.error f, s) => (.error f, s)
    | (.ok bs, s) => if Entry.accepts e.pattern bs then (.ok (some e), s) else search t s

def probe (table : Table) (limits : Limits) (stop : Stop) (s : Session (LookAhead ρ)) :
    Except ProbeError ImageInfo × Session (LookAhead ρ) :=
  match table.search s.reader with
  | (.error f, reader) => (.error (.ofFault f), { s with reader })
  | (.ok (some e), reader) =>
    let matched := Note.debug ("matched " ++ e.describe)
    e.decoder.decode stop { s with reader, log := matched :: s.log }
  | (.ok none, reader) =>
    match reader.look limits.svgWindow with
    | (.error f, reader) => (.error (.ofFault f), { s with reader })
    | (.ok bs, reader) =>
      let (verdict, s) := (Markup.judge bs).run stop { s with reader }
      (if verdict then .ok Markup.svgInfo else .error .unknownFormat, s)

end Table

end ImageProbe

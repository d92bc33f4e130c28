import ImageProbe.Walk

namespace ImageProbe

namespace Icon

open Reading

/-- An image of an icon as its directory tells; sides are stored in a byte, 256 as 0. -/
structure Entry where
  storedWidth : Nat
  storedHeight : Nat
  size : Nat
  offset : Nat

namespace Entry

def side (stored : Nat) : Nat := if stored = 0 then 256 else stored

def width (e : Entry) : Nat := side e.storedWidth

def height (e : Entry) : Nat := side e.storedHeight

def ofBytes (bs : Bytes) : Entry where
  storedWidth := littleEndian (slice bs 0 1)
  storedHeight := littleEndian (slice bs 1 1)
  size := littleEndian (slice bs 8 4)
  offset := littleEndian (slice bs 12 4)

def better (e best : Entry) : Bool :=
  best.width < e.width || best.height < e.height || e.storedWidth = 0 || e.storedHeight = 0

end Entry

def choose (best : Option Entry) (e : Entry) : Option Entry :=
  match best with
  | some b => if e.better b then some e else some b
  | none => some e

def entries : Nat → Option Entry → Reading (Option Entry)
  | 0, best => pure best
  | left + 1, best => do
    checkStop
    let bs ← exactly 16
    entries left (choose best (.ofBytes bs))

def directory : Reading Entry := do
  let head ← exactly 6
  require .ico (head.take 4 = [0, 0, 1, 0]) .invalidIconDirectory
  match ← entries (littleEndian (head.drop 4)) none with
  | none => refuse .ico .emptyIconDirectory
  | some e =>
    writeNote (.debug
      s!"best entry: {e.width}x{e.height}, {e.size} bytes at {e.offset}")
    pure e

def decoder : Decoder :=
  .ofReading ((fun e => ⟨.ico, e.width, e.height⟩) <$> directory)

end Icon

end ImageProbe

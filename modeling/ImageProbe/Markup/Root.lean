import ImageProbe.Markup.Item
import ImageProbe.Walk

namespace ImageProbe

namespace Markup

def localName (name : Bytes) : Bytes :=
  if name.contains 0x3a then (name.dropWhile (· ≠ 0x3a)).drop 1 else name

/-- Whether the first tag is that of an SVG; only blanks, comments, instructions and doctypes may
stand before it. -/
def root (bs : Bytes) : Except MarkupError Bool :=
  if ! (bs.takeWhile (· ≠ lessThan)).all isBlank then .ok false
  else match _h : bs.dropWhile (· ≠ lessThan) with
    | [] => .ok false
    | _ :: inner => match _hi : item inner with
      | .error e => .error e
      | .ok (.tag name, _) => .ok (localName name = ascii "svg")
      | .ok (.cdata, _) => .ok false
      | .ok (.prolog, rest) => root rest
termination_by bs.length
decreasing_by
  have hd := (List.dropWhile_sublist (· ≠ lessThan) (l := bs)).length_le
  have hr := length_item _hi
  rw [_h, List.length_cons] at hd
  omega

def byteOrderMark : Bytes := [0xef, 0xbb, 0xbf]

def svgRoot (bs : Bytes) : Except MarkupError Bool :=
  root (if byteOrderMark.isPrefixOf bs then bs.drop 3 else bs)

def isSvg (bs : Bytes) : Bool := (svgRoot bs).toOption.getD false

def judge (bs : Bytes) : Script Bool :=
  match svgRoot bs with
  | .ok verdict => pure verdict
  | .error e => do
    writeNote (.debug s!"svg sniff: {e.message}")
    pure false

def svgInfo : ImageInfo := ⟨.svg, 1, 1⟩

def window : Nat := 32768

def reading : Reading ImageInfo := do
  let head ← Reading.upTo window
  if ← judge head then pure svgInfo
  else Reading.refuse .svg .rootNotSvg

def decoder : Decoder := .ofReading reading

end Markup

end ImageProbe

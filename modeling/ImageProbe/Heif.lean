import ImageProbe.Heif.Level

namespace ImageProbe

namespace Heif

def walk (brands : BrandRule) : Walk Outcome where
  State := Findings
  start := pure (.more (.ofBrands brands))
  reach _ := Box.headLength - 1
  round f head := box brands (enclosed 0 (level brands maxDepth))
    (Findings.ofBrands brands).errorFormat head f
  close f e := pure (levelEnd e, f)

def answer (f : Findings) : Except ProbeError ImageInfo :=
  match f.format with
  | some format =>
    if f.isKnown then .ok ⟨format, f.largest.1, f.largest.2⟩
    else .error (.malformed format .dimensionsNotFound)
  | none => .error (.malformed .heic .dimensionsNotFound)

/-- An error counts only while something is still to be found, but a stop always does. -/
def conclude : Outcome → Script (Except ProbeError ImageInfo)
  | (.ok (), f) => pure (answer f)
  | (.error (.stopped why), _) => pure (.error (.stopped why))
  | (.error e, f) => do
    if f.isKnown then
      writeNote (.debug s!"heif: {e.message} after dimensions were found (ignored)")
      pure (answer f)
    else if e = .endOfData then
      writeNote (.debug "heif: data ended before dimensions were found")
      pure (answer f)
    else pure (.error e)

def decoder (brands : BrandRule) : Decoder := (walk brands).andThen conclude

end Heif

def heic : Decoder := Heif.decoder Heif.heicBrands

def heif : Decoder := Heif.decoder Heif.heifBrands

end ImageProbe

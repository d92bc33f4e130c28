import ImageProbe.Error
import ImageProbe.Bytes

namespace ImageProbe

namespace Heif

structure BrandRule where
  known : List (Bytes × ImageFormat)
  /-- The format told whichever brand it is. -/
  always : Option ImageFormat
  defect : Defect

def heicBrands : BrandRule where
  known := [(ascii "heic", .heic)]
  always := some .heic
  defect := .brandsNotHeic

def heifBrands : BrandRule where
  known := [(ascii "heic", .heic), (ascii "heix", .heic), (ascii "avif", .avif)]
  always := none
  defect := .brandsNotHeif

def BrandRule.format? (brands : BrandRule) (brand : Bytes) : Option ImageFormat :=
  (brands.known.lookup brand).map (brands.always.getD ·)

/-- What has been found of the image so far; the latest extent comes first. -/
structure Findings where
  format : Option ImageFormat
  extents : List (Nat × Nat) := []
  deriving DecidableEq

namespace Findings

def ofBrands (brands : BrandRule) : Findings := ⟨brands.always, []⟩

def errorFormat (f : Findings) : ImageFormat := f.format.getD .heic

def addExtent (f : Findings) (width height : Nat) : Findings :=
  { f with extents := (width, height) :: f.extents }

def swapLatest : List (Nat × Nat) → List (Nat × Nat)
  | [] => []
  | (width, height) :: rest => (height, width) :: rest

def rotate (f : Findings) (quarters : Nat) : Findings :=
  if quarters % 2 = 1 then { f with extents := swapLatest f.extents } else f

def better (extent best : Nat × Nat) : Nat × Nat :=
  if best.1 < extent.1 ∨ best.2 < extent.2 then extent else best

def largest (f : Findings) : Nat × Nat := f.extents.foldr better (0, 0)

def isKnown (f : Findings) : Bool := f.format.isSome && 0 < f.largest.1 && 0 < f.largest.2

end Findings

end Heif

end ImageProbe

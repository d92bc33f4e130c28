import ImageProbe.Bitmap
import ImageProbe.FixedHeader
import ImageProbe.Heif
import ImageProbe.Icon.Directory
import ImageProbe.Jpeg
import ImageProbe.Jxl
import ImageProbe.Table
import ImageProbe.Tiff
import ImageProbe.Webp

namespace ImageProbe

namespace Table

def heifBrands : List String :=
  ["heic", "heix", "hevc", "heim", "heis", "hevm", "hevs", "mif1", "avif"]

def knownFormats : List Entry :=
  [⟨[0xff, 0xd8], Jpeg.decoder⟩,
    ⟨Jxl.marker, Jxl.decoder⟩,
    ⟨Jxl.signature, Jxl.decoder⟩,
    ⟨pngSignature, png.decoder⟩,
    ⟨ascii "RIFF????WEBPVP8", Webp.decoder⟩,
    ⟨ascii "GIF8?a", gif.decoder⟩,
    ⟨[0, 0, 1, 0], Icon.decoder⟩] ++
  heifBrands.map (fun brand => ⟨ascii ("????ftyp" ++ brand), heif⟩) ++
  [⟨ascii "BM", Bitmap.decoder⟩,
    ⟨[0x49, 0x49, 0x2a, 0], Tiff.decoder⟩,
    ⟨[0x4d, 0x4d, 0, 0x2a], Tiff.decoder⟩,
    ⟨ascii "%PDF-", pdf.decoder⟩,
    ⟨ascii "<?xml ", Markup.decoder⟩,
    ⟨ascii "<svg", Markup.decoder⟩]

def builtin : Table := knownFormats.foldl register empty

end Table

end ImageProbe

namespace ImageProbe

inductive ImageFormat
  | jpeg | jxl | png | webp | gif | ico | svg | heic | avif | bmp | tiff | pdf
  deriving DecidableEq

namespace ImageFormat

def name : ImageFormat → String
  | jpeg => "jpeg"
  | jxl => "jxl"
  | png => "png"
  | webp => "webp"
  | gif => "gif"
  | ico => "ico"
  | svg => "svg"
  | heic => "heic"
  | avif => "avif"
  | bmp => "bmp"
  | tiff => "tiff"
  | pdf => "pdf"

instance : ToString ImageFormat := ⟨name⟩

def mimeType : ImageFormat → String
  | jpeg => "image/jpeg"
  | jxl => "image/jxl"
  | png => "image/png"
  | webp => "image/webp"
  | gif => "image/gif"
  | ico => "image/x-icon"
  | svg => "image/svg+xml"
  | heic => "image/heif"
  | avif => "image/avif"
  | bmp => "image/bmp"
  | tiff => "image/tiff"
  | pdf => "application/pdf"

def extension : ImageFormat → String
  | jpeg => ".jpg"
  | f => "." ++ f.name

def ofName? : String → Option ImageFormat
  | "jpeg" | "jpg" => some jpeg
  | "jxl" => some jxl
  | "png" => some png
  | "webp" => some webp
  | "gif" => some gif
  | "ico" => some ico
  | "svg" => some svg
  | "heic" => some heic
  | "avif" => some avif
  | "bmp" => some bmp
  | "tiff" => some tiff
  | "pdf" => some pdf
  | _ => none

end ImageFormat

structure ImageInfo where
  format : ImageFormat
  width : Nat
  height : Nat
  deriving DecidableEq

end ImageProbe

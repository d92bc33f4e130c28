import ImageProbe.Proofs.Guarded.Icon

namespace ImageProbe

/-- The guarded programs have results, and these are those of the programs: the decoders over a
stream, the choice from an icon's directory, the question to an icon, and the completion of a
bitmap. -/
structure Unaborted {ρ : Type} [ByteReader ρ] (stop : Stop) (s : Session ρ) (limits : Limits)
    (canLoad : ImageFormat → Bool) (icon dib : Bytes) : Prop where
  jpeg : Jpeg.guarded.decode stop s = some (Jpeg.decoder.decode stop s)
  jxl : Jxl.guarded.decode stop s = some (Jxl.decoder.decode stop s)
  webp : (GuardedDecoder.ofReading Webp.guardedReading).decode stop s =
    some (Webp.decoder.decode stop s)
  tiff : (GuardedDecoder.ofReading Tiff.guardedReading).decode stop s =
    some (Tiff.decoder.decode stop s)
  bitmap : (GuardedDecoder.ofReading Bitmap.guardedReading).decode stop s =
    some (Bitmap.decoder.decode stop s)
  heic : (Heif.guarded Heif.heicBrands).decode stop s = some (heic.decode stop s)
  heif : (Heif.guarded Heif.heifBrands).decode stop s = some (heif.decode stop s)
  directory : Icon.guardedDirectory.outcome.run.run stop s =
    (Icon.directory.run.run stop s).map some id
  resolve : Icon.guardedResolve .builtin limits stop canLoad icon =
    some (Icon.resolve .builtin limits stop canLoad icon)
  complete : Bitmap.guardedComplete dib = some (Bitmap.complete dib)

/-- Whatever the bytes are, however they come and whenever the host stops, no operation leaves its
range. -/
theorem guarded_unaborted {ρ : Type} [ByteReader ρ] (stop : Stop) (s : Session ρ) {limits : Limits}
    (hwindow : limits.svgWindow < range64) (canLoad : ImageFormat → Bool) {icon dib : Bytes}
    (hicon : Addressable icon) (hdib : Addressable dib) :
    Unaborted stop s limits canLoad icon dib where
  jpeg := Jpeg.guarded_sound ρ stop s
  jxl := Jxl.guarded_sound ρ stop s
  webp := GuardedDecoder.Sound.ofReading Webp.guardedReading_sound ρ stop s
  tiff := GuardedDecoder.Sound.ofReading Tiff.guardedReading_sound ρ stop s
  bitmap := GuardedDecoder.Sound.ofReading Bitmap.guardedReading_sound ρ stop s
  heic := Heif.guarded_sound Heif.heicBrands ρ stop s
  heif := Heif.guarded_sound Heif.heifBrands ρ stop s
  directory := (Icon.guardedDirectory_sound.outcome.run stop s).1
  resolve := GuardedTable.plain_builtin ▸
    Icon.guardedResolve_eq stop GuardedTable.builtin_sound hwindow canLoad hicon
  complete := Bitmap.guardedComplete_eq hdib

theorem guarded_unaborted_extremes :
    let stream : Tape := ⟨[0, 0, 0, 1] ++ ascii "mdat" ++ List.replicate 8 0xff, none⟩
    let icon : Bytes := [0, 0, 1, 0, 1, 0] ++ List.replicate 16 0xff
    let dib : Bytes := List.replicate 40 0xff
    Guard.add range32 (range32 - 1) 1 = none ∧ Addressable icon ∧ Addressable dib ∧
      Unaborted .never (⟨stream, 0, []⟩ : Session Tape) {} (fun _ => true) icon dib := by
  intro stream icon dib
  have hicon : Addressable icon := by decide
  have hdib : Addressable dib := by decide
  exact ⟨by decide, hicon, hdib, guarded_unaborted .never _ (by decide) _ hicon hdib⟩

end ImageProbe

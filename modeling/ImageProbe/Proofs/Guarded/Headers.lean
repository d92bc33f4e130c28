import ImageProbe.Bitmap
import ImageProbe.FixedHeader
import ImageProbe.Proofs.Guarded
import ImageProbe.Tiff

namespace ImageProbe

open Reading Guard GuardedReading

namespace FixedHeader

def guarded (h : FixedHeader) (accepts : Bytes → Option Bool) (extent : Bytes → Option (Nat × Nat)) :
    GuardedReading ImageInfo := do
  let bs ← exactly h.length
  require h.format (← accepts bs) .invalidSignature
  let (width, height) ← extent bs
  pure ⟨h.format, width, height⟩

theorem guarded_sound {h : FixedHeader} {accepts : Bytes → Option Bool}
    {extent : Bytes → Option (Nat × Nat)}
    (haccepts : ∀ bs : Bytes, bs.length = h.length → accepts bs = some (h.accepts bs))
    (hextent : ∀ bs : Bytes, bs.length = h.length → extent bs = some (h.extent bs)) :
    (h.guarded accepts extent).Sound (fun _ => True) h.reading := by
  apply (Sound.exactly _).bind
  intro bs hlen
  apply Sound.guard (haccepts bs hlen)
  apply (Sound.require _ _ _).bind
  intro _ _
  apply Sound.guard (hextent bs hlen)
  exact .pure trivial

end FixedHeader

def guardedPng : GuardedReading ImageInfo :=
  png.guarded (fun bs => do pure ((← part bs 0 8) = pngSignature))
    fun bs => do pure (bigEndian (← part bs 16 4), bigEndian (← part bs 20 4))

def guardedGif : GuardedReading ImageInfo :=
  gif.guarded
    (fun bs => do
      let mark ← part bs 0 6
      pure (mark = ascii "GIF87a" || mark = ascii "GIF89a"))
    fun bs => do pure (littleEndian (← part bs 6 2), littleEndian (← part bs 8 2))

def guardedPdf : GuardedReading ImageInfo :=
  pdf.guarded (fun bs => do pure ((← part bs 0 5) = ascii "%PDF-")) fun _ => pure (1, 1)

theorem guardedPng_sound : guardedPng.Sound (fun _ => True) png.reading := by
  apply FixedHeader.guarded_sound
  · intro bs hlen
    rw [part_eq (by rw [hlen]; decide)]
    rfl
  · intro bs hlen
    rw [part_eq (by rw [hlen]; decide), part_eq (by rw [hlen]; decide)]
    rfl

theorem guardedGif_sound : guardedGif.Sound (fun _ => True) gif.reading := by
  apply FixedHeader.guarded_sound
  · intro bs hlen
    rw [part_eq (by rw [hlen]; decide)]
    rfl
  · intro bs hlen
    rw [part_eq (by rw [hlen]; decide), part_eq (by rw [hlen]; decide)]
    rfl

theorem guardedPdf_sound : guardedPdf.Sound (fun _ => True) pdf.reading := by
  apply FixedHeader.guarded_sound
  · intro bs hlen
    rw [part_eq (by rw [hlen]; decide)]
    rfl
  · intro bs _
    rfl

namespace Bitmap

def guardedReading : GuardedReading ImageInfo := do
  let file ← exactly fileHeaderLength
  require .bmp ((← part file 0 2) = ascii "BM") .invalidSignature
  let length ← leNumber 4
  if infoHeaderLength ≤ length then
    let sizes ← exactly 8
    let width := littleEndian (← part sizes 0 4)
    require .bmp (! isNegative range32 width) .negativeWidth
    pure ⟨.bmp, width, magnitude range32 (littleEndian (← behind sizes 4))⟩
  else
    require .bmp (coreHeaderLength ≤ length) .dibTooSmall
    let sizes ← exactly 4
    pure ⟨.bmp, littleEndian (← part sizes 0 2), magnitude range16 (littleEndian (← behind sizes 2))⟩

theorem guardedReading_sound : guardedReading.Sound (fun _ => True) reading := by
  unfold guardedReading reading
  apply (Sound.exactly _).bind
  intro file hfile
  apply Sound.guard (part_eq (by rw [hfile]; decide))
  apply (Sound.require _ _ _).bind
  intro _ _
  apply (Sound.leNumber 4).bind
  intro length _
  by_cases hlong : infoHeaderLength ≤ length
  · rw [if_pos hlong, if_pos hlong]
    apply (Sound.exactly 8).bind
    intro sizes hsizes
    apply Sound.guard (part_eq (by omega))
    apply (Sound.require _ _ _).bind
    intro _ _
    apply Sound.guard (behind_eq (by omega))
    exact .pure trivial
  · rw [if_neg hlong, if_neg hlong]
    apply (Sound.require _ _ _).bind
    intro _ _
    apply (Sound.exactly 4).bind
    intro sizes hsizes
    apply Sound.guard (part_eq (by omega))
    apply Sound.guard (behind_eq (by omega))
    exact .pure trivial

end Bitmap

namespace Tiff

def guardedValue (order : ByteOrder) (entry : Bytes) : Option (Except Nat Nat) := do
  match order.number (← part entry 2 2) with
  | 1 => pure (.ok (order.number (← part entry 8 1)))
  | 3 => pure (.ok (order.number (← part entry 8 2)))
  | 4 => pure (.ok (order.number (← part entry 8 4)))
  | type => pure (.error type)

def guardedDimension (order : ByteOrder) (entry : Bytes) : GuardedReading Nat := do
  match ← guardedValue order entry with
  | .ok n => pure n
  | .error type => do
    writeNote (.debug s!"dimension tag with field type {type}")
    refuse .tiff .unsupportedFieldType

def guardedEntries (order : ByteOrder) : Nat → Nat → Nat → GuardedReading ImageInfo
  | 0, _, _ => refuse .tiff .dimensionsMissing
  | left + 1, width, height => do
    checkStop
    let entry ← exactly entryLength
    let tag := order.number (← part entry 0 2)
    if tag = widthTag ∨ tag = heightTag then
      let n ← guardedDimension order entry
      let (width, height) := if tag = widthTag then (n, height) else (width, n)
      if 0 < width ∧ 0 < height then pure ⟨.tiff, width, height⟩
      else guardedEntries order left width height
    else guardedEntries order left width height

def guardedReading : GuardedReading ImageInfo := do
  let header ← exactly 8
  match byteOrder? (← part header 0 4) with
  | none => refuse .tiff .invalidSignature
  | some order =>
    let offset := order.number (← part header 4 4)
    require .tiff (8 ≤ offset) .directoryInHeader
    skip (← sub offset 8)
    let count ← order.number <$> exactly 2
    guardedEntries order count 0 0

theorem guardedValue_eq (order : ByteOrder) {entry : Bytes} (h : entry.length = entryLength) :
    guardedValue order entry = some (value order entry) := by
  unfold guardedValue value
  rw [part_eq (by rw [h]; decide), part_eq (by rw [h]; decide), part_eq (by rw [h]; decide),
    part_eq (by rw [h]; decide)]
  change (match order.number (slice entry 2 2) with | 1 => _ | 3 => _ | 4 => _ | type => _) = _
  generalize order.number (slice entry 2 2) = kind
  rcases kind with _ | _ | _ | _ | _ | kind <;> rfl

theorem guardedDimension_sound (order : ByteOrder) {entry : Bytes}
    (h : entry.length = entryLength) :
    (guardedDimension order entry).Sound (fun _ => True) (dimension order entry) := by
  unfold guardedDimension dimension
  apply Sound.guard (guardedValue_eq order h)
  cases value order entry with
  | ok n => exact .pure trivial
  | error type => exact .note _ (.refuse _ _ _)

theorem guardedEntries_sound (order : ByteOrder) (left width height : Nat) :
    (guardedEntries order left width height).Sound (fun _ => True)
      (entries order left width height) := by
  induction left generalizing width height with
  | zero => exact .refuse _ _ _
  | succ left ih =>
    unfold guardedEntries entries
    apply Sound.checkStop
    apply (Sound.exactly _).bind
    intro entry hentry
    apply Sound.guard (part_eq (by rw [hentry]; decide))
    extract_lets tag
    by_cases htag : tag = widthTag ∨ tag = heightTag
    · rw [if_pos htag, if_pos htag]
      apply (guardedDimension_sound order hentry).bind
      intro n _
      obtain ⟨width, height⟩ := if tag = widthTag then (n, height) else (width, n)
      dsimp only
      by_cases hfull : 0 < width ∧ 0 < height
      · rw [if_pos hfull, if_pos hfull]
        exact .pure trivial
      · rw [if_neg hfull, if_neg hfull]
        exact ih _ _
    · rw [if_neg htag, if_neg htag]
      exact ih _ _

theorem guardedReading_sound : guardedReading.Sound (fun _ => True) reading := by
  unfold guardedReading reading
  apply (Sound.exactly 8).bind
  intro header hheader
  apply Sound.guard (part_eq (by omega))
  change GuardedReading.Sound _ (match byteOrder? (header.take 4) with | none => _ | some order => _) _
  cases byteOrder? (header.take 4) with
  | none => exact .refuse _ _ _
  | some order =>
    apply Sound.guard (part_eq (by omega))
    apply (Sound.require _ _ _).bind
    intro _ hoffset
    apply Sound.guard (sub_eq (of_decide_eq_true hoffset))
    apply (Sound.any _).bind
    intro _ _
    have hcount : GuardedReading.Sound (fun _ => True) (order.number <$> liftM (exactly 2)) _ :=
      (Sound.exactly 2).map fun _ _ => trivial
    apply hcount.bind
    intro count _
    exact guardedEntries_sound order count 0 0

end Tiff

end ImageProbe

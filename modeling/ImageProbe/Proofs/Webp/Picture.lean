import ImageProbe.Proofs.Bytes
import ImageProbe.Proofs.Bytes.Bits
import ImageProbe.Webp

namespace ImageProbe

namespace Webp

/-- A chunk that tells the size: its name, the length that it declares, its first bytes, and the
width and the height. -/
inductive Picture : Bytes → Nat → Bytes → Nat × Nat → Prop
  | extended {flags width height : Bytes} (hflags : flags.length = 4) (hwidth : width.length = 3)
    (hheight : height.length = 3) :
    Picture (ascii "VP8X") 10 (flags ++ (width ++ height))
      (littleEndian width + 1, littleEndian height + 1)
  | lossy {length : Nat} {tag width height : Bytes} (long : 10 ≤ length) (htag : tag.length = 3)
    (keyframe : littleEndian tag % 2 = 0) (hwidth : width.length = 2) (hheight : height.length = 2) :
    Picture (ascii "VP8 ") length (tag ++ (startCode ++ (width ++ height)))
      (littleEndian width % 0x4000, littleEndian height % 0x4000)
  | lossless {length : Nat} {fields : Bytes} (long : 5 ≤ length) (hfields : fields.length = 4)
    (version : littleEndian fields / 0x20000000 = 0) :
    Picture (ascii "VP8L") length (0x2f :: fields)
      (littleEndian fields % 0x4000 + 1, littleEndian fields / 0x4000 % 0x4000 + 1)

theorem Picture.length_name {name head : Bytes} {n : Nat} {extent : Nat × Nat}
    (told : Picture name n head extent) : name.length = 4 := by
  cases told with
  | extended => rfl
  | lossy => rfl
  | lossless => rfl

theorem canvas_picture {head : Bytes} (h : head.length = 10) :
    Picture (ascii "VP8X") 10 head (canvasExtent head) := by
  have hparts : slice head 0 4 ++ (slice head 4 3 ++ slice head 7 3) = head := by
    rw [slice_append_slice head 4 3 3, slice_append_slice head 0 4 6, slice_whole h]
  have hpicture := Picture.extended (length_slice (by omega : 0 + 4 ≤ head.length))
    (length_slice (by omega : 4 + 3 ≤ head.length)) (length_slice (by omega : 7 + 3 ≤ head.length))
  rwa [hparts] at hpicture

theorem keyframe_bit {head : Bytes} (h : 3 ≤ head.length) :
    littleEndian (slice head 0 3) % 2 = littleEndian (slice head 0 1) % 2 := by
  obtain ⟨b, rest, rfl⟩ := List.exists_cons_of_length_pos (Nat.lt_of_lt_of_le (by decide) h)
  have hfirst (n : Nat) : littleEndian (slice (b :: rest) 0 (n + 1)) % 2 = b.toNat % 2 := by
    rw [slice, List.drop_zero, List.take_succ_cons, littleEndian]
    omega
  rw [hfirst 2, hfirst 0]

theorem lossy_picture {head : Bytes} {n : Nat} {extent : Nat × Nat}
    (h : head.length ≤ min lossyHeaderLength n) (hextent : lossyExtent head = .ok extent) :
    Picture (ascii "VP8 ") n head extent := by
  unfold lossyExtent at hextent
  split at hextent
  · cases hextent
  rename_i hlong
  rw [lossyHeaderLength] at h hlong
  split at hextent
  · cases hextent
  rename_i hkey
  split at hextent
  · cases hextent
  rename_i hcode
  cases hextent
  have hparts : slice head 0 3 ++ (slice head 3 3 ++ (slice head 6 2 ++ slice head 8 2)) = head := by
    rw [slice_append_slice head 6 2 2, slice_append_slice head 3 3 4, slice_append_slice head 0 3 7,
      slice_whole (by omega)]
  have hkeyframe : littleEndian (slice head 0 3) % 2 = 0 := by
    rw [keyframe_bit (by omega)]
    exact Decidable.not_not.1 hkey
  have hpicture := Picture.lossy (by omega : 10 ≤ n) (length_slice (by omega : 0 + 3 ≤ head.length))
    hkeyframe (length_slice (by omega : 6 + 2 ≤ head.length))
    (length_slice (by omega : 8 + 2 ≤ head.length))
  have hcode : slice head 3 3 = startCode := Decidable.not_not.1 hcode
  rwa [← hcode, hparts] at hpicture

theorem losslessFields_run {fields : Bytes} (h : fields.length = 4) :
    losslessFields.run (.ofBytes fields) =
      .ok ((littleEndian fields % 0x4000, littleEndian fields / 0x4000 % 0x4000,
        littleEndian fields / 0x20000000), ⟨fields, 32⟩) := by
  have hlt : littleEndian fields < span 4 := h ▸ littleEndian_lt fields
  have hspan : span 4 = 8 * 0x20000000 := rfl
  have hversion : littleEndian fields / 0x20000000 % 8 = littleEndian fields / 0x20000000 :=
    Nat.mod_eq_of_lt (Nat.div_lt_of_lt_mul (by omega))
  have hread {β : Type} (i n : Nat) (hi : i + n ≤ 32) (f : Nat → BitReading β) :
      (bits n >>= f).run ⟨fields, i⟩ = _ :=
    BitReading.bits_bind_run (by omega) (by omega) f
  rw [losslessFields, BitCursor.ofBytes, hread 0 14 (by decide), hread 14 14 (by decide),
    hread 28 1 (by decide), hread 29 3 (by decide)]
  change Except.ok ((littleEndian fields >>> 0 % 0x4000, littleEndian fields >>> 14 % 0x4000,
    littleEndian fields >>> 29 % 8), _) = _
  simp only [Nat.shiftRight_eq_div_pow, Nat.reducePow, Nat.div_one, hversion]

theorem losslessExtent_fields {fields : Bytes} (h : fields.length = 4) :
    losslessExtent (0x2f :: fields) =
      if littleEndian fields / 0x20000000 = 0 then
        .ok (littleEndian fields % 0x4000 + 1, littleEndian fields / 0x4000 % 0x4000 + 1)
      else .error .unsupportedLosslessVersion := by
  have hlong : ¬ (0x2f :: fields).length < losslessHeaderLength := by
    rw [List.length_cons, h]
    decide
  have hsignature : ¬ slice (0x2f :: fields) 0 1 ≠ [0x2f] := Decidable.not_not.2 rfl
  rw [losslessExtent, if_neg hlong, if_neg hsignature, List.drop_one, List.tail_cons,
    losslessFields_run h]

theorem lossless_picture {head : Bytes} {n : Nat} {extent : Nat × Nat}
    (h : head.length ≤ min losslessHeaderLength n) (hextent : losslessExtent head = .ok extent) :
    Picture (ascii "VP8L") n head extent := by
  rw [losslessHeaderLength] at h
  obtain ⟨fields, hfields, rfl⟩ : ∃ fields : Bytes, fields.length = 4 ∧ head = 0x2f :: fields := by
    unfold losslessExtent at hextent
    split at hextent
    · cases hextent
    rename_i hlong
    rw [losslessHeaderLength] at hlong
    split at hextent
    · cases hextent
    rename_i hsignature
    refine ⟨head.drop 1, by rw [List.length_drop]; omega, ?_⟩
    have hsplit := slice_append_drop head 0 1
    rw [Decidable.not_not.1 hsignature, List.drop_zero] at hsplit
    exact hsplit.symm
  rw [losslessExtent_fields hfields] at hextent
  split at hextent
  · rename_i hversion
    cases hextent
    rw [List.length_cons, hfields] at h
    exact .lossless (by omega) hfields hversion
  · cases hextent

theorem canvasExtent_picture {flags width height : Bytes} (hflags : flags.length = 4)
    (hwidth : width.length = 3) (hheight : height.length = 3) :
    canvasExtent (flags ++ (width ++ height)) =
      (littleEndian width + 1, littleEndian height + 1) := by
  have hfront : (flags ++ width).length = 7 := by rw [List.length_append, hflags, hwidth]
  have hlast := slice_field hfront hheight []
  rw [List.append_nil, List.append_assoc] at hlast
  rw [canvasExtent, slice_field hflags hwidth height, hlast]

theorem lossyExtent_picture {tag width height : Bytes} (htag : tag.length = 3)
    (keyframe : littleEndian tag % 2 = 0) (hwidth : width.length = 2) (hheight : height.length = 2) :
    lossyExtent (tag ++ (startCode ++ (width ++ height))) =
      .ok (littleEndian width % 0x4000, littleEndian height % 0x4000) := by
  have hcode : startCode.length = 3 := rfl
  have hlong : ¬ (tag ++ (startCode ++ (width ++ height))).length < lossyHeaderLength := by
    rw [List.length_append, List.length_append, List.length_append, htag, hcode, hwidth, hheight]
    decide
  have htags : slice (tag ++ (startCode ++ (width ++ height))) 0 3 = tag :=
    slice_field List.length_nil htag _
  have hkey : ¬ littleEndian (slice (tag ++ (startCode ++ (width ++ height))) 0 1) % 2 ≠ 0 := by
    rw [← keyframe_bit (by rw [List.length_append, htag]; exact Nat.le_add_right 3 _), htags]
    exact Decidable.not_not.2 keyframe
  have hwidths : slice (tag ++ (startCode ++ (width ++ height))) 6 2 = width := by
    rw [← List.append_assoc]
    exact slice_field (by rw [List.length_append, htag, hcode]) hwidth height
  have hheights : slice (tag ++ (startCode ++ (width ++ height))) 8 2 = height := by
    have hfront : (tag ++ (startCode ++ width)).length = 8 := by
      rw [List.length_append, List.length_append, htag, hcode, hwidth]
    have hlast := slice_field hfront hheight []
    rwa [List.append_nil, List.append_assoc, List.append_assoc] at hlast
  rw [lossyExtent, if_neg hlong, if_neg hkey, slice_field htag hcode, if_neg (Decidable.not_not.2 rfl),
    hwidths, hheights]

end Webp

end ImageProbe

import ImageProbe.Proofs.Guarded.Bits
import ImageProbe.Webp

namespace ImageProbe

namespace Webp

open Reading Guard

def guardedLossyExtent (head : Bytes) : Option (Except Defect (Nat × Nat)) :=
  if head.length < lossyHeaderLength then pure (.error .lossyHeaderShort)
  else do
    let tag := littleEndian (← part head 0 1)
    let code ← part head 3 3
    let width := littleEndian (← part head 6 2) % 0x4000
    let height := littleEndian (← part head 8 2) % 0x4000
    if tag % 2 ≠ 0 then pure (.error .notKeyframe)
    else if code ≠ startCode then pure (.error .invalidStartCode)
    else pure (.ok (width, height))

def guardedLosslessFields : GuardedBits (Nat × Nat × Nat) := do
  let width ← guardedBits 14
  let height ← guardedBits 14
  let _ ← guardedBits 1
  let version ← guardedBits 3
  pure (width, height, version)

def guardedLosslessExtent (head : Bytes) : Option (Except Defect (Nat × Nat)) :=
  if head.length < losslessHeaderLength then pure (.error .losslessHeaderShort)
  else do
    let signature ← part head 0 1
    let fields ← behind head 1
    if signature ≠ [0x2f] then pure (.error .invalidLosslessSignature)
    else
      match ← guardedLosslessFields.run (.ofBytes fields) with
      | .error _ => pure (.error .losslessHeaderShort)
      | .ok ((width, height, version), _) =>
        let width ← add range32 width 1
        let height ← add range32 height 1
        if version = 0 then pure (.ok (width, height)) else pure (.error .unsupportedLosslessVersion)

def guardedCanvasExtent (head : Bytes) : Option (Nat × Nat) := do
  let width ← add range32 (littleEndian (← part head 4 3)) 1
  let height ← add range32 (littleEndian (← part head 7 3)) 1
  pure (width, height)

def saturated (length : Nat) : Nat := min (length + length % 2) (range32 - 1)

def guardedChunks (remaining : Nat) : GuardedReading ImageInfo := do
  checkStop
  if remaining < 8 then refuse .webp .imageChunkMissing
  else
    let name ← exactly 4
    let length ← leNumber 4
    -- The differences are matched on, since the recursion ends by what they are.
    match _hroom : sub remaining 8 with
    | none => failure
    | some room =>
      if room < length then refuse .webp .chunkPastForm
      else
        let padded := min (saturated length) room
        match _hrest : sub room padded with
        | none => failure
        | some rest =>
          if name = ascii "ALPH" then
            writeNote (.debug s!"ALPH: {length} bytes (skipped)")
            skip padded
            guardedChunks rest
          else if name = ascii "VP8 " then
            let whole ← fit range64 length
            let head ← exactly (← fit (lossyHeaderLength + 1) (min lossyHeaderLength whole))
            ofExtent (← guardedLossyExtent head)
          else if name = ascii "VP8L" then
            let whole ← fit range64 length
            let head ← exactly (← fit (losslessHeaderLength + 1) (min losslessHeaderLength whole))
            ofExtent (← guardedLosslessExtent head)
          else if name = ascii "VP8X" then
            require .webp (length = 10) .extendedLength
            let head ← exactly 10
            ofExtent (.ok (← guardedCanvasExtent head))
          else
            writeNote (.debug ("unexpected chunk " ++ quoted (escaped name)))
            refuse .webp .unexpectedChunk
termination_by remaining
decreasing_by
  obtain ⟨-, rfl⟩ := of_sub _hroom
  obtain ⟨-, rfl⟩ := of_sub _hrest
  omega

def guardedReading : GuardedReading ImageInfo := do
  let head ← exactly 12
  require .webp ((← part head 0 4) = ascii "RIFF") .riffMissing
  require .webp ((← part head 8 4) = ascii "WEBP") .notWebp
  let length := littleEndian (← part head 4 4)
  require .webp (4 ≤ length) .riffTooSmall
  guardedChunks (← sub length 4)

theorem guardedLossyExtent_eq (head : Bytes) :
    guardedLossyExtent head = some (lossyExtent head) := by
  unfold guardedLossyExtent lossyExtent
  split
  · rfl
  rename_i hlen
  rw [lossyHeaderLength] at hlen
  apply bind_eq (part_eq (by omega))
  apply bind_eq (part_eq (by omega))
  apply bind_eq (part_eq (by omega))
  apply bind_eq (part_eq (by omega))
  dsimp only
  split
  · rfl
  split
  · rfl
  · rfl

theorem guardedCanvasExtent_eq {head : Bytes} (h : head.length = 10) :
    guardedCanvasExtent head = some (canvasExtent head) := by
  have hfit (i : Nat) (hi : i + 3 ≤ head.length) : littleEndian (slice head i 3) + 1 < range32 := by
    have hlt := littleEndian_slice_lt hi
    have hspan : span 3 + 1 < range32 := by decide
    omega
  apply bind_eq (part_eq (by omega))
  apply bind_eq (add_eq (hfit 4 (by omega)))
  apply bind_eq (part_eq (by omega))
  apply bind_eq (add_eq (hfit 7 (by omega)))
  rfl

section Fields

open GuardedBits

theorem guardedLosslessFields_sound :
    Sound (fun fields => fields.1 < 1 <<< 14 ∧ fields.2.1 < 1 <<< 14) guardedLosslessFields
      losslessFields := by
  apply (Sound.bits (by decide)).bind
  intro width hwidth
  apply (Sound.bits (by decide)).bind
  intro height hheight
  apply (Sound.bits (by decide)).bind
  intro _ _
  apply (Sound.bits (by decide)).bind
  intro version _
  exact .pure ⟨hwidth, hheight⟩

theorem guardedLosslessExtent_eq {head : Bytes} (h : head.length ≤ losslessHeaderLength) :
    guardedLosslessExtent head = some (losslessExtent head) := by
  unfold guardedLosslessExtent losslessExtent
  split
  · rfl
  rename_i hlen
  rw [losslessHeaderLength] at h hlen
  have hinside : (BitCursor.ofBytes (head.drop 1)).Inside := by
    apply BitCursor.inside_ofBytes
    rw [List.length_drop, range64]
    omega
  obtain ⟨hfields, hall⟩ := guardedLosslessFields_sound _ hinside
  apply bind_eq (part_eq (by omega))
  apply bind_eq (behind_eq (by omega))
  split
  · rfl
  apply bind_eq hfields
  rw [StateT.run]
  rcases hout : losslessFields (.ofBytes (head.drop 1)) with s | ⟨⟨width, height, version⟩, c⟩
  · rfl
  · obtain ⟨⟨hwidth, hheight⟩, -⟩ := hall _ _ hout
    have hrange : 1 <<< 14 < range32 := by decide
    dsimp only at hwidth hheight
    apply bind_eq (add_eq (by omega))
    apply bind_eq (add_eq (by omega))
    dsimp only
    split
    · rfl
    · rfl

end Fields

section Chunks

open GuardedReading

theorem padded_eq {length room : Nat} (hroom : room < range32) :
    min (saturated length) room = padded length room := by
  rw [saturated, padded]
  omega

theorem ofExtent_sound (size : Except Defect (Nat × Nat)) :
    Sound (fun _ => True) (liftM (ofExtent size)) (ofExtent size) := .any _

theorem guardedChunks_sound (remaining : Nat) (h : remaining < range32) :
    (guardedChunks remaining).Sound (fun _ => True) (chunks remaining) := by
  induction remaining using Nat.strongRecOn with
  | ind remaining ih =>
    rw [guardedChunks, chunks]
    apply Sound.checkStop
    split
    · exact .refuse _ _ _
    rename_i hmin
    apply (Sound.exactly 4).bind
    intro name _
    apply (Sound.leNumber 4).bind
    intro length hlength
    have hwhole : length < range64 := Nat.lt_trans hlength (by decide)
    split
    · rename_i hnone
      rw [sub_eq (by omega)] at hnone
      exact nomatch hnone
    rename_i room hroom
    obtain ⟨-, rfl⟩ := of_sub hroom
    split
    · exact .refuse _ _ _
    extract_lets padding
    have hpadding : padding = padded length (remaining - 8) := padded_eq (by omega)
    split
    · rename_i hnone
      rw [sub_eq (Nat.min_le_right _ _)] at hnone
      exact nomatch hnone
    rename_i rest hrest
    obtain ⟨-, rfl⟩ := of_sub hrest
    rw [hpadding]
    split
    · apply Sound.note
      apply (Sound.any _).bind
      intro _ _
      exact ih _ (by omega) (by omega)
    split
    · apply Sound.guard (fit_eq hwhole)
      apply Sound.guard (fit_eq (by omega))
      apply (Sound.exactly _).bind
      intro head _
      apply Sound.guard (guardedLossyExtent_eq head)
      exact ofExtent_sound _
    split
    · apply Sound.guard (fit_eq hwhole)
      apply Sound.guard (fit_eq (by omega))
      apply (Sound.exactly _).bind
      intro head hhead
      apply Sound.guard (guardedLosslessExtent_eq (by omega))
      exact ofExtent_sound _
    split
    · apply (Sound.require _ _ _).bind
      intro _ _
      apply (Sound.exactly 10).bind
      intro head hhead
      apply Sound.guard (guardedCanvasExtent_eq hhead)
      exact ofExtent_sound _
    · apply Sound.note
      exact .refuse _ _ _

theorem guardedReading_sound : guardedReading.Sound (fun _ => True) reading := by
  unfold guardedReading reading
  apply (Sound.exactly 12).bind
  intro head hhead
  have hlength : littleEndian (slice head 4 4) < range32 := littleEndian_slice_lt (by omega)
  apply Sound.guard (part_eq (by omega))
  apply (Sound.require _ _ _).bind
  intro _ _
  apply Sound.guard (part_eq (by omega))
  apply (Sound.require _ _ _).bind
  intro _ _
  apply Sound.guard (part_eq (by omega))
  apply (Sound.require _ _ _).bind
  intro _ hmin
  apply Sound.guard (sub_eq (of_decide_eq_true hmin))
  exact guardedChunks_sound _ (by omega)

end Chunks

end Webp

end ImageProbe

import ImageProbe.Icon.Embedded
import ImageProbe.Proofs.Guarded.Table

namespace ImageProbe

open Guard

/-- No buffer is longer than half of what 64 bits can number. -/
def Addressable (bs : Bytes) : Prop := 2 * bs.length < range64

instance (bs : Bytes) : Decidable (Addressable bs) := inferInstanceAs (Decidable (_ < _))

namespace Bitmap

def guardedIsHeaderless (dib : Bytes) : Option Bool :=
  if dib.length < infoHeaderLength then pure false
  else do
    let length := littleEndian (← part dib 0 4)
    let planes := littleEndian (← part dib 12 2)
    pure (length ∈ headerLengths && planes = 1)

def guardedColours (depth used : Nat) : Option Nat :=
  if used = 0 ∧ depth ≤ 8 then shiftLeft 32 1 depth else pure used

def checkedOffset (colours : Nat) : Option Nat := do
  add range32 (← mul range32 colours 4) (fileHeaderLength + infoHeaderLength)

def guardedComplete (dib : Bytes) : Option (Except ProbeError Bytes) :=
  if dib.length < infoHeaderLength then pure (.error (.malformed .bmp .dibTooShort))
  else do
    let total ← add range64 dib.length fileHeaderLength
    if range32 ≤ total then pure (.error (.malformed .bmp .imageTooLarge))
    else
      let depth := littleEndian ((← behind dib 14).take 2)
      let used := littleEndian ((← behind dib 32).take 4)
      let height := littleEndian ((← behind dib 8).take 4)
      let colours ← guardedColours depth used
      let first ← part dib 0 8
      let rest ← behind dib 12
      match checkedOffset colours with
      | none => pure (.error (.malformed .bmp .paletteTooLarge))
      | some offset =>
        pure (.ok (ascii "BM" ++ toLittleEndian 4 total ++ [0, 0, 0, 0] ++ toLittleEndian 4 offset ++
          first ++ toLittleEndian 4 (height / 2) ++ rest))

theorem guardedIsHeaderless_eq (dib : Bytes) :
    guardedIsHeaderless dib = some (isHeaderless dib) := by
  unfold guardedIsHeaderless isHeaderless
  by_cases hshort : dib.length < infoHeaderLength
  · rw [if_pos hshort, decide_eq_false (Nat.not_le_of_lt hshort)]
    rfl
  · rw [if_neg hshort, decide_eq_true (Nat.le_of_not_lt hshort)]
    rw [infoHeaderLength] at hshort
    apply bind_eq (part_eq (by omega))
    apply bind_eq (part_eq (by omega))
    rfl

theorem guardedColours_eq (dib : Bytes) :
    guardedColours (littleEndian (slice dib 14 2)) (littleEndian (slice dib 32 4)) =
      some (paletteColours dib) := by
  unfold guardedColours paletteColours
  dsimp only
  split
  · rename_i hfew
    have hall : ∀ depth ≤ 8, shiftLeft 32 1 depth = some (1 <<< depth) := by decide
    exact hall _ hfew.2
  · rfl

theorem checkedOffset_eq (dib : Bytes) :
    checkedOffset (paletteColours dib) =
      if range32 ≤ pixelOffset dib then none else some (pixelOffset dib) := by
  rw [pixelOffset, Nat.mul_comm]
  by_cases hrange : range32 ≤ paletteColours dib * 4 + (fileHeaderLength + infoHeaderLength)
  · rw [if_pos hrange]
    by_cases hmul : paletteColours dib * 4 < range32
    · exact bind_eq (mul_eq hmul) (if_neg (Nat.not_lt_of_le hrange))
    · have hnone : mul range32 (paletteColours dib) 4 = none := if_neg hmul
      rw [checkedOffset, hnone]
      rfl
  · rw [if_neg hrange]
    exact bind_eq (mul_eq (by omega)) (add_eq (by omega))

theorem guardedComplete_eq {dib : Bytes} (h : Addressable dib) :
    guardedComplete dib = some (complete dib) := by
  have hrange : fileHeaderLength < range64 / 2 := by decide
  unfold guardedComplete complete
  extract_lets total
  split
  · rfl
  rename_i hlong
  rw [infoHeaderLength] at hlong
  rw [Addressable] at h
  apply bind_eq (add_eq (by omega))
  split
  · rfl
  apply bind_eq (behind_eq (by omega))
  apply bind_eq (behind_eq (by omega))
  apply bind_eq (behind_eq (by omega))
  apply bind_eq (guardedColours_eq dib)
  apply bind_eq (part_eq (by omega))
  apply bind_eq (behind_eq (by omega))
  rw [checkedOffset_eq]
  by_cases hlarge : range32 ≤ pixelOffset dib
  · rw [if_pos hlarge, if_pos hlarge]
    rfl
  · rw [if_neg hlarge, if_neg hlarge]
    rfl

end Bitmap

namespace Icon

def guardedReadBytes {α : Type} (p : GuardedReading α) (stop : Stop) (bs : Bytes) (a : Account) :
    Option (Except ProbeError α × Account) := do
  let tape : Tape := ⟨bs, none⟩
  let (result, s) := p.outcome.run.run stop ⟨tape, a.1, a.2⟩
  pure (← result, s.checks, s.log)

def guardedProbeBytes (table : GuardedTable) (limits : Limits) (stop : Stop) (bs : Bytes)
    (a : Account) : Option (Except ProbeError ImageInfo × Account) := do
  let ahead : LookAhead Tape := { inner := ⟨bs, none⟩ }
  let (result, s) ← table.probe limits stop ⟨ahead, a.1, a.2⟩
  pure (result, s.checks, s.log)

def guardedCompletion (limits : Limits) (stop : Stop) (e : Entry) (bs : Bytes) (a : Account) :
    Option (Except ProbeError Embedded × Account) := do
  let total ← add range64 bs.length Bitmap.fileHeaderLength
  match limits.allow total with
  | .error err => pure (.error err, a)
  | .ok () =>
    match ← Bitmap.guardedComplete bs with
    | .error err => pure (.error err, a)
    | .ok file =>
      let (info, a) ← guardedReadBytes Bitmap.guardedReading stop file a
      pure (info.map fun info => ⟨info, e.offset, e.size, file, true⟩, a)

def guardedMayBeHeaderless (err : ProbeError) (bs : Bytes) : Option Bool :=
  match err with
  | .stopped _ => pure false
  | _ => Bitmap.guardedIsHeaderless bs

def guardedIdentify (table : GuardedTable) (limits : Limits) (stop : Stop) (e : Entry) (bs : Bytes)
    (a : Account) : Option (Except ProbeError Embedded × Account) := do
  match ← guardedProbeBytes table limits stop bs a with
  | (.ok info, a) => pure (.ok ⟨info, e.offset, e.size, bs, false⟩, a)
  | (.error err, checks, log) =>
    if ← guardedMayBeHeaderless err bs then
      let retry := Note.warn (s!"embedded image not recognized ({err.message}), " ++
        "retrying as BMP without file header")
      guardedCompletion limits stop e bs (checks, retry :: log)
    else pure (.error err, checks, log)

def located (offset size : Nat) (icon : Bytes) : Option Bytes := do
  let stop ← add range64 offset size
  if stop ≤ icon.length then some (slice icon offset size) else none

def guardedEmbedded (table : GuardedTable) (limits : Limits) (stop : Stop) (icon : Bytes) :
    Option (Except ProbeError Embedded × Account) := do
  match ← guardedReadBytes guardedDirectory stop icon (0, []) with
  | (.error err, a) => pure (.error err, a)
  | (.ok e, a) =>
    match located (← fit range64 e.offset) (← fit range64 e.size) icon with
    | some bs => guardedIdentify table limits stop e bs a
    | none => pure (.error (.malformed .ico .iconDataOutOfBounds), a)

def guardedResolve (table : GuardedTable) (limits : Limits) (stop : Stop)
    (canLoad : ImageFormat → Bool) (icon : Bytes) : Option Resolution := do
  match ← guardedEmbedded table limits stop icon with
  | (.error err, checks, log) => pure ⟨.error err, [], checks, log⟩
  | (.ok image, checks, log) =>
    let format := image.info.format
    let unsupported : Except ProbeError Embedded := .error (.unsupportedEmbedded format)
    if format = .ico then pure ⟨unsupported, [], checks, log⟩
    else pure ⟨if canLoad format then .ok image else unsupported, [format], checks, log⟩

variable {table : GuardedTable} {limits : Limits} (stop : Stop) {bs : Bytes}

theorem guardedReadBytes_eq {α : Type} {Q : α → Prop} {p' : GuardedReading α} {p : Reading α}
    (hp : p'.Sound Q p) (bs : Bytes) (a : Account) :
    guardedReadBytes p' stop bs a = some (readBytes p stop bs a) ∧
      ∀ v, (readBytes p stop bs a).1 = .ok v → Q v := by
  let tape : Tape := ⟨bs, none⟩
  obtain ⟨hrun, hall⟩ := hp.outcome.run stop (⟨tape, a.1, a.2⟩ : Session Tape)
  refine ⟨?_, hall⟩
  rw [guardedReadBytes, hrun]
  rfl

theorem guardedProbeBytes_eq (htable : table.Sound) (hwindow : limits.svgWindow < range64)
    (bs : Bytes) (a : Account) :
    guardedProbeBytes table limits stop bs a = some (probeBytes table.plain limits stop bs a) := by
  let ahead : LookAhead Tape := { inner := ⟨bs, none⟩ }
  have hprobe := GuardedTable.probe_eq htable hwindow stop (s := ⟨ahead, a.1, a.2⟩) rfl
  exact bind_eq hprobe rfl

theorem guardedCompletion_eq (h : Addressable bs) (e : Entry) (a : Account) :
    guardedCompletion limits stop e bs a = some (complete limits stop e bs a) := by
  have hrange : Bitmap.fileHeaderLength < range64 / 2 := by decide
  rw [complete]
  apply bind_eq (add_eq (by rw [Addressable] at h; omega))
  cases limits.allow (bs.length + Bitmap.fileHeaderLength) with
  | error err => rfl
  | ok _ =>
    apply bind_eq (Bitmap.guardedComplete_eq h)
    cases Bitmap.complete bs with
    | error err => rfl
    | ok file => exact bind_eq (guardedReadBytes_eq stop Bitmap.guardedReading_sound file a).1 rfl

theorem guardedMayBeHeaderless_eq (err : ProbeError) (bs : Bytes) :
    guardedMayBeHeaderless err bs = some (mayBeHeaderless err bs) := by
  cases err with
  | stopped why => rfl
  | _ => exact Bitmap.guardedIsHeaderless_eq bs

theorem guardedIdentify_eq (htable : table.Sound) (hwindow : limits.svgWindow < range64)
    (h : Addressable bs) (e : Entry) (a : Account) :
    guardedIdentify table limits stop e bs a = some (identify table.plain limits stop e bs a) := by
  rw [identify]
  apply bind_eq (guardedProbeBytes_eq stop htable hwindow bs a)
  rcases probeBytes table.plain limits stop bs a with ⟨err | info, checks, log⟩
  · apply bind_eq (guardedMayBeHeaderless_eq err bs)
    dsimp only
    split
    · exact guardedCompletion_eq stop h e _
    · rfl
  · rfl

theorem located_eq (offset size : Nat) {icon : Bytes} (h : Addressable icon) :
    located offset size icon =
      if offset + size ≤ icon.length then some (slice icon offset size) else none := by
  by_cases hrange : offset + size < range64
  · exact bind_eq (add_eq hrange) rfl
  · have hnone : add range64 offset size = none := if_neg hrange
    rw [Addressable] at h
    rw [located, hnone, if_neg (by omega)]
    rfl

theorem guardedEmbedded_eq (htable : table.Sound) (hwindow : limits.svgWindow < range64)
    {icon : Bytes} (h : Addressable icon) :
    guardedEmbedded table limits stop icon = some (embedded table.plain limits stop icon) := by
  rw [embedded]
  obtain ⟨hread, hnarrow⟩ := guardedReadBytes_eq stop guardedDirectory_sound icon (0, [])
  apply bind_eq hread
  rcases hout : readBytes directory stop icon (0, []) with ⟨err | e, a⟩
  · rfl
  rw [hout] at hnarrow
  obtain ⟨hsize, hoffset⟩ := hnarrow e rfl
  have hrange : range32 < range64 := by decide
  apply bind_eq (fit_eq (Nat.lt_trans hoffset hrange))
  apply bind_eq (fit_eq (Nat.lt_trans hsize hrange))
  dsimp only
  rw [located_eq _ _ h]
  by_cases hwithin : e.offset + e.size ≤ icon.length
  · have hslice : Addressable (slice icon e.offset e.size) := by
      rw [Addressable] at h ⊢
      rw [length_slice hwithin]
      omega
    rw [if_pos hwithin, if_pos hwithin]
    exact guardedIdentify_eq stop htable hwindow hslice e a
  · rw [if_neg hwithin, if_neg hwithin]
    rfl

theorem guardedResolve_eq (htable : table.Sound) (hwindow : limits.svgWindow < range64)
    (canLoad : ImageFormat → Bool) {icon : Bytes} (h : Addressable icon) :
    guardedResolve table limits stop canLoad icon =
      some (resolve table.plain limits stop canLoad icon) := by
  rw [resolve]
  apply bind_eq (guardedEmbedded_eq stop htable hwindow h)
  rcases embedded table.plain limits stop icon with ⟨err | image, checks, log⟩
  · rfl
  · dsimp only
    split
    · rfl
    · rfl

end Icon

end ImageProbe

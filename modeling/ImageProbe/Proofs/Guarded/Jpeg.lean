import ImageProbe.Jpeg
import ImageProbe.Proofs.Guarded

namespace ImageProbe

namespace Jpeg

open Reading Guard GuardedReading

abbrev GuardedSearch := GuardedReading (Step Scan ImageInfo)

def guardedFrame : GuardedSearch := do
  let head ← exactly 5
  let precision := bigEndian (← part head 0 1)
  if precision = 8 then
    pure (.done ⟨.jpeg, bigEndian (← part head 3 2), bigEndian (← part head 1 2)⟩)
  else
    writeNote (.warn s!"jpeg: {precision}-bit precision is not supported")
    refuse .jpeg .unsupportedPrecision

def guardedSegment (marker : UInt8) : GuardedSearch :=
  if marker = endOfImage then refuse .jpeg .frameMissing
  else if isRestart marker then nextMarker
  else do
    let length ← beNumber 2
    let code := hex marker
    if length ≤ 2 then
      writeNote (.debug s!"marker 0x{code} with segment length {length} (ignored)")
      nextMarker
    else if isFrame marker then guardedFrame
    else if marker = startOfScan then refuse .jpeg .frameMissing
    else
      let rest ← sub length 2
      writeNote (.debug s!"marker 0x{code}: {rest} bytes (skipped)")
      skip rest
      nextMarker

def guardedAtBytes (a b : UInt8) : GuardedSearch :=
  if a ≠ 0xff then pure (.more (.sliding b))
  else if b = 0 then nextMarker
  else if b = 0xff then pure (.more .filling)
  else guardedSegment b

def guardedRound : Scan → Bytes → GuardedSearch
  | .marker, bs => do guardedAtBytes (← bs[0]?) (← bs[1]?)
  | .sliding last, bs => do guardedAtBytes last (← bs[0]?)
  | .filling, bs => do
    let b ← bs[0]?
    if b = 0xff then pure (.more .filling) else guardedSegment b

def guarded : GuardedDecoder :=
  .ofGuarded (Step.settle <$> outcome start) reach
    (fun state bs => Step.settle <$> outcome (guardedRound state bs)) fun _ e => pure (.error e)

theorem guardedFrame_sound : guardedFrame.Sound (fun _ => True) frame := by
  unfold guardedFrame frame
  apply (Sound.exactly 5).bind
  intro head hhead
  apply Sound.guard (part_eq (by omega))
  extract_lets precision
  by_cases height : precision = 8
  · rw [if_pos height, if_pos height]
    apply Sound.guard (part_eq (by omega))
    apply Sound.guard (part_eq (by omega))
    exact .pure trivial
  · rw [if_neg height, if_neg height]
    exact .note _ (.refuse _ _ _)

theorem nextMarker_sound : Sound (fun _ => True) nextMarker nextMarker :=
  .checkStop (.pure trivial)

theorem guardedSegment_sound (marker : UInt8) :
    (guardedSegment marker).Sound (fun _ => True) (segment marker) := by
  unfold guardedSegment segment
  split
  · exact .refuse _ _ _
  split
  · exact nextMarker_sound
  apply (Sound.beNumber 2).bind
  intro length _
  dsimp only
  split
  · exact .note _ nextMarker_sound
  rename_i hlength
  split
  · exact guardedFrame_sound
  split
  · exact .refuse _ _ _
  apply Sound.guard (sub_eq (by omega))
  apply Sound.note
  apply (Sound.any _).bind
  intro _ _
  exact nextMarker_sound

theorem guardedAtBytes_sound (a b : UInt8) :
    (guardedAtBytes a b).Sound (fun _ => True) (atBytes a b) := by
  unfold guardedAtBytes atBytes
  split
  · exact .pure trivial
  split
  · exact nextMarker_sound
  split
  · exact .pure trivial
  · exact guardedSegment_sound b

theorem guardedRound_sound (state : Scan) {bs : Bytes} (h : bs.length = reach state + 1) :
    (guardedRound state bs).Sound (fun _ => True) (round state bs) := by
  cases state with
  | marker =>
    obtain ⟨a, b, rfl⟩ := List.length_eq_two.1 h
    exact guardedAtBytes_sound a b
  | sliding last =>
    obtain ⟨b, rfl⟩ := List.length_eq_one_iff.1 h
    exact guardedAtBytes_sound last b
  | filling =>
    obtain ⟨b, rfl⟩ := List.length_eq_one_iff.1 h
    change Sound _ (if b = 0xff then _ else _) (if b = 0xff then _ else _)
    split
    · exact .pure trivial
    · exact guardedSegment_sound b

theorem guarded_sound : guarded.Sound decoder := by
  have hguards : decoder.Guards (fun _ => True) (fun r => ∀ info : ImageInfo, r = .ok info → True)
      (Step.settle <$> outcome start) (fun state bs => Step.settle <$> outcome (guardedRound state bs))
      fun _ e => pure (.error e) := by
    constructor
    · exact ((Sound.any start).weaken fun step _ => all_true step).settled
    · intro state bs _ hlen
      exact ((guardedRound_sound state hlen).weaken fun step _ => all_true step).settled
    · intro _ e _
      exact .pure nofun
  exact .ofGuards hguards

end Jpeg

end ImageProbe

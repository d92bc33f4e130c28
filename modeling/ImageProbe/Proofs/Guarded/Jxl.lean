import ImageProbe.Jxl
import ImageProbe.Proofs.Guarded.Bits
import ImageProbe.Proofs.Guarded.Boxes

namespace ImageProbe

namespace Jxl

open Reading Guard

def fieldWidths : List Nat := [9, 13, 18, 30]

def ratios : List (Nat × Nat) := [(1, 1), (12, 10), (4, 3), (3, 2), (16, 9), (5, 4), (2, 1)]

def guardedSide (small : Bool) : GuardedBits Nat := do
  if small then
    let n ← guardedBits 5
    mul range32 (← add range32 n 1) 8
  else
    let selector ← guardedBits 2
    let n ← guardedBits (← fieldWidths[selector]?)
    add range32 n 1

def guardedExtent : GuardedBits (Nat × Nat) := do
  let small := (← guardedBits 1) = 1
  let height ← guardedSide small
  let r ← guardedBits 3
  if r = 0 then
    let width ← guardedSide small
    pure (width, height)
  else
    let share ← ratios[← sub r 1]?
    let width ← div (← mul range64 height share.1) share.2
    pure (width, height)

def guardedSize (codestream : Bytes) : Option (Except SizeError (Nat × Nat)) :=
  if codestream.length < shortestHeader then pure (.error (.defect .codestreamTooShort))
  else if codestream.take 2 ≠ marker then pure (.error (.defect .codestreamMarkerMissing))
  else do
    match ← guardedExtent.run (.ofBytes (← behind codestream 2)) with
    | .error s => pure (.error (.shortage s))
    | .ok ((width, height), _) =>
      if width < range32 then pure (.ok (width, height))
      else pure (.error (.defect .widthOutOfRange))

section SizeHeader

open GuardedBits

def longestSide : Nat := 1 <<< 30

theorem fieldWidths_eq {selector : Nat} (h : selector < 1 <<< 2) :
    fieldWidths[selector]? = some (fieldBits selector) ∧ fieldBits selector ≤ 32 ∧
      1 <<< fieldBits selector ≤ longestSide := by
  have hall : ∀ i < 1 <<< 2, fieldWidths[i]? = some (fieldBits i) ∧ fieldBits i ≤ 32 ∧
      1 <<< fieldBits i ≤ longestSide := by
    decide
  exact hall selector h

theorem ratios_eq {r : Nat} (h : r < 1 <<< 3) (hr : r ≠ 0) :
    ratios[r - 1]? = some (ratio r) ∧ (ratio r).1 ≤ 16 ∧ (ratio r).2 ≠ 0 := by
  have hall : ∀ i < 1 <<< 3, i ≠ 0 →
      ratios[i - 1]? = some (ratio i) ∧ (ratio i).1 ≤ 16 ∧ (ratio i).2 ≠ 0 := by decide
  exact hall r h hr

theorem guardedSide_sound (small : Bool) :
    Sound (· ≤ longestSide) (guardedSide small) (side small) := by
  unfold guardedSide side
  split
  · apply (Sound.bits (by decide)).bind
    intro n hn
    have hn : n < 32 := hn
    apply Sound.guard (add_eq (by unfold range32; omega))
    exact .last (mul_eq (by unfold range32; omega)) (by unfold longestSide; omega)
  · apply (Sound.bits (by decide)).bind
    intro selector hselector
    obtain ⟨hwidth, hbits, hlongest⟩ := fieldWidths_eq hselector
    apply Sound.guard hwidth
    apply (Sound.bits hbits).bind
    intro n hn
    have hlong : n < longestSide := Nat.lt_of_lt_of_le hn hlongest
    have hrange : longestSide < range32 := by decide
    exact .last (add_eq (by omega)) hlong

theorem guardedExtent_sound : Sound (fun _ => True) guardedExtent extent := by
  unfold guardedExtent extent
  apply (Sound.bits (by decide)).bind
  intro first _
  apply (guardedSide_sound _).bind
  intro height hheight
  apply (Sound.bits (by decide)).bind
  intro r hr
  by_cases hzero : r = 0
  · rw [if_pos hzero, if_pos hzero]
    apply (guardedSide_sound _).bind
    intro width _
    exact .pure trivial
  · rw [if_neg hzero, if_neg hzero]
    obtain ⟨hshare, hnum, hden⟩ := ratios_eq hr hzero
    have hproduct : height * (ratio r).1 < range64 :=
      calc height * (ratio r).1 ≤ longestSide * 16 := Nat.mul_le_mul hheight hnum
        _ < range64 := by decide
    apply Sound.guard (sub_eq (by omega))
    apply Sound.guard hshare
    apply Sound.guard (mul_eq hproduct)
    apply Sound.guard (div_eq hden)
    exact .pure trivial

theorem guardedSize_eq {codestream : Bytes} (h : codestream.length ≤ longestHeader) :
    guardedSize codestream = some (size codestream) := by
  unfold guardedSize size
  split
  · rfl
  rename_i hshort
  split
  · rfl
  have hrange : 8 * longestHeader < range64 := by decide
  have hmarker : 2 ≤ codestream.length := by
    rw [shortestHeader] at hshort
    omega
  have hinside : (BitCursor.ofBytes (codestream.drop 2)).Inside := by
    apply BitCursor.inside_ofBytes
    rw [List.length_drop]
    omega
  have hextent : (guardedExtent.run (.ofBytes (codestream.drop 2))).run =
      some (extent.run (.ofBytes (codestream.drop 2))) := (guardedExtent_sound _ hinside).1
  apply bind_eq (behind_eq hmarker)
  apply bind_eq hextent
  rcases extent.run (.ofBytes (codestream.drop 2)) with s | ⟨⟨width, height⟩, c⟩
  · rfl
  · dsimp only
    split
    · rfl
    · rfl

end SizeHeader

def guardedTake (n : Nat) (codestream : Bytes) : GuardedReading Bytes := do
  let free ← sub longestHeader codestream.length
  -- The bytes are read into the buffer, so there may be no more of them than it holds.
  let part ← exactly (← fit (longestHeader + 1) (min n free))
  extend longestHeader codestream part

def guardedWhole (box : Box.Header) (codestream : Bytes) : GuardedReading (Step Bytes Bytes) := do
  let length ← box.guardedPayload
  require .jxl (shortestHeader ≤ length) .invalidCodestreamBox
  .done <$> guardedTake length codestream

def guardedPart (box : Box.Header) (codestream : Bytes) : GuardedReading (Step Bytes Bytes) := do
  let length ← box.guardedPayload
  require .jxl (4 ≤ length) .invalidPartBox
  let number ← beNumber 4
  let codestream ← guardedTake (← sub length 4) codestream
  if codestream.length = longestHeader then pure (.done codestream)
  else if ! number.testBit 31 then pure (.more codestream)
  else if shortestHeader ≤ codestream.length then pure (.done codestream)
  else refuse .jxl .invalidCodestreamBox

def guardedLookInto (box : Box.Header) (codestream : Bytes) :
    GuardedReading (Step Bytes Bytes) := do
  checkStop
  if box.name = ascii "jxlc" then guardedWhole box codestream
  else if box.name = ascii "jxlp" then guardedPart box codestream
  else pure (.more codestream)

def guardedBox (head codestream : Bytes) : GuardedScript (Step Bytes Outcome) := do
  match ← (Box.guardedHeader .jxl head).outcome with
  | .error e => pure (.done (.error e))
  | .ok header =>
    header.guardedVisit (fun _ e => .error e)
      (Step.settle <$> (guardedLookInto header codestream).outcome)

def guardedStart : GuardedReading (Step Bytes Bytes) := do
  let first ← exactly 2
  if first = marker then
    let codestream ← extend longestHeader [] first
    .done <$> guardedTake (← sub longestHeader first.length) codestream
  else
    let rest ← exactly 10
    require .jxl (first ++ rest = signature) .invalidContainerSignature
    pure (.more [])

def guardedConclude : Outcome → GuardedScript (Except ProbeError ImageInfo)
  | .error e => pure (.error e)
  | .ok codestream => do
    match ← guardedSize codestream with
    | .ok (width, height) => pure (.ok ⟨.jxl, width, height⟩)
    | .error (.defect d) => pure (.error (.malformed .jxl d))
    | .error (.shortage s) => do
      writeNote (.debug s!"size header needs {s.requested} more bits, {s.remaining} left")
      pure (.error (.malformed .jxl .sizeHeaderTruncated))

def guarded : GuardedDecoder :=
  (Walk.ofGuarded (Step.settle <$> guardedStart.outcome) (fun _ => Box.headLength - 1)
    (fun codestream head => guardedBox head codestream) fun _ e => pure (.error e)).andThen
    (GuardedDecoder.onward guardedConclude)

def Held (codestream : Bytes) : Prop := codestream.length ≤ longestHeader

section Codestream

open GuardedReading

theorem guardedTake_sound (n : Nat) {codestream : Bytes} (h : Held codestream) :
    (guardedTake n codestream).Sound Held (take n codestream) := by
  unfold guardedTake take
  apply Sound.guard (sub_eq h)
  apply Sound.guard (fit_eq (by omega))
  apply (Sound.exactly _).bind
  intro part hpart
  have hroom : codestream.length + part.length ≤ longestHeader := by
    have hheld : codestream.length ≤ longestHeader := h
    omega
  apply Sound.last (extend_eq hroom)
  rw [Held, List.length_append]
  exact hroom

variable {box : Box.Header} {codestream : Bytes}

theorem guardedWhole_sound (hsized : box.Sized) (h : Held codestream) :
    (guardedWhole box codestream).Sound (Step.All Held Held) (whole box codestream) := by
  unfold guardedWhole whole
  apply Sound.guard (Box.Header.guardedPayload_eq hsized)
  apply (Sound.require _ _ _).bind
  intro _ _
  exact (guardedTake_sound _ h).map fun _ hheld => hheld

theorem guardedPart_sound (hsized : box.Sized) (h : Held codestream) :
    (guardedPart box codestream).Sound (Step.All Held Held) (part box codestream) := by
  unfold guardedPart Jxl.part
  apply Sound.guard (Box.Header.guardedPayload_eq hsized)
  apply (Sound.require _ _ _).bind
  intro _ hlength
  apply (Sound.beNumber 4).bind
  intro number _
  apply Sound.guard (sub_eq (of_decide_eq_true hlength))
  apply (guardedTake_sound _ h).bind
  intro collected hheld
  split
  · exact .pure hheld
  split
  · exact .pure hheld
  split
  · exact .pure hheld
  · exact .refuse _ _ _

theorem guardedStart_sound : guardedStart.Sound (Step.All Held Held) start := by
  unfold guardedStart start
  apply (Sound.exactly 2).bind
  intro first hfirst
  split
  · have hnone : extend longestHeader [] first = some first := extend_eq (by rw [hfirst]; decide)
    have htake : take longestHeader first = take (longestHeader - first.length) first := by
      rw [take, take, hfirst]
      rfl
    apply Sound.guard hnone
    apply Sound.guard (sub_eq (by rw [hfirst]; decide))
    rw [htake]
    refine (guardedTake_sound _ ?_).map fun _ hheld => hheld
    rw [Held, hfirst]
    decide
  · apply (Sound.exactly 10).bind
    intro rest _
    apply (Sound.require _ _ _).bind
    intro _ _
    exact .pure (Nat.zero_le _)

theorem guardedLookInto_sound (hsized : box.Sized) (h : Held codestream) :
    Sound (Step.All Held Held) (guardedLookInto box codestream) (lookInto box codestream) := by
  apply Sound.checkStop
  split
  · exact guardedWhole_sound hsized h
  split
  · exact guardedPart_sound hsized h
  · exact .pure h

end Codestream

def Delivered (r : Outcome) : Prop := ∀ codestream, r = .ok codestream → Held codestream

theorem guardedBox_sound {head codestream : Bytes} (hhead : head.length = Box.headLength)
    (h : Held codestream) :
    (guardedBox head codestream).Sound (Step.All Held Delivered) (box head codestream) := by
  unfold guardedBox box
  apply (Box.guardedHeader_sound .jxl hhead).outcome.bind
  rintro (e | header) hsized
  · exact .pure nofun
  · exact Box.Header.guardedVisit_sound (hsized header rfl) (fun _ _ _ => nofun)
      (guardedLookInto_sound (hsized header rfl) h).settled

theorem guardedConclude_sound (r : Outcome) (h : Delivered r) :
    (guardedConclude r).Sound (fun _ => True) (conclude r) := by
  cases r with
  | error e => exact .pure trivial
  | ok codestream =>
    apply GuardedScript.Sound.guard (guardedSize_eq (h codestream rfl))
    rw [conclude]
    rcases size codestream with (d | s) | ⟨width, height⟩
    · exact .pure trivial
    · exact .note _ (.pure trivial)
    · exact .pure trivial

theorem guarded_sound : guarded.Sound decoder := by
  have hguards : walk.Guards Held Delivered (Step.settle <$> guardedStart.outcome)
      (fun codestream head => guardedBox head codestream) fun _ e => pure (.error e) := by
    constructor
    · exact guardedStart_sound.settled
    · intro codestream head h hlen
      exact guardedBox_sound hlen h
    · intro _ e _
      exact .pure nofun
  exact .andThen hguards guardedConclude_sound

end Jxl

end ImageProbe

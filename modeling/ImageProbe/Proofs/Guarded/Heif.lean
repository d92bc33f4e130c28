import ImageProbe.Heif
import ImageProbe.Proofs.Guarded.Boxes

namespace ImageProbe

namespace Heif

open Reading Guard

def guardedNeeds (f : Findings) (box : Box.Header) (n : Nat) (defect : Defect) :
    GuardedReading Unit := do
  require f.errorFormat (n ≤ (← box.guardedPayload)) defect

def guardedFileType (brands : BrandRule) (box : Box.Header) (f : Findings) :
    GuardedReading Findings := do
  guardedNeeds f box 8 .fileTypeTooShort
  let major ← exactly 4
  match brands.format? major with
  | some format => pure { f with format := some format }
  | none =>
    skip 4
    let left ← sub (← box.guardedPayload) 8
    let compatible : GuardedReading (Option ImageFormat) :=
      liftM (compatibleFormat brands (left / 4))
    match ← compatible with
    | some format => pure { f with format := some format }
    | none =>
      let brand := Utf8.lossy major
      writeNote (.debug s!"ftyp major brand '{brand}' not accepted")
      refuse f.errorFormat brands.defect

def guardedHandler (box : Box.Header) (f : Findings) : GuardedReading Unit := do
  guardedNeeds f box 12 .handlerTooShort
  let kind ← part (← exactly 12) 8 4
  if kind ≠ ascii "pict" then
    let name := Utf8.lossy kind
    writeNote (.debug s!"hdlr: expected 'pict', actual '{name}'")
    refuse f.errorFormat .handlerNotPicture

def guardedExtent (box : Box.Header) (f : Findings) : GuardedReading Findings := do
  guardedNeeds f box 12 .extentsTooShort
  skip 4
  let width ← beNumber 4
  let height ← beNumber 4
  writeNote (.debug s!"ispe {width}x{height}")
  pure (f.addExtent width height)

def guardedRotation (box : Box.Header) (f : Findings) : GuardedReading Findings := do
  guardedNeeds f box 1 .rotationTooShort
  let quarters := (← beNumber 1) % 4
  writeNote (.debug s!"irot {quarters}")
  pure (f.rotate quarters)

def guardedStep (f : Findings) (p : GuardedReading Findings) :
    GuardedScript (Step Findings Outcome) := do
  match ← p.outcome with
  | .ok f => pure (.more f)
  | .error e => pure (.done (.error e, f))

abbrev GuardedChildren := Nat → Findings → GuardedScript Outcome

def guardedEnclosed (depth : Nat) (children : GuardedChildren) (room : Nat) (f : Findings) :
    GuardedScript Outcome := do
  match ← children room f with
  | (.error .endOfData, f) =>
    writeNote (.debug s!"truncated container at depth {depth}")
    pure (.ok (), f)
  | outcome => pure outcome

def guardedMetadata (children : GuardedChildren) (box : Box.Header) (f : Findings) :
    GuardedScript Outcome := do
  match ← GuardedReading.outcome (do guardedNeeds f box 4 .metaTooShort; skip 4) with
  | .error e => pure (.error e, f)
  | .ok () =>
    let left ← sub (← box.guardedPayload) 4
    match ← (if left = 0 then pure (.ok (), f) else children left f) with
    | (.error e, f) => pure (.error e, f)
    | (.ok (), f) => pure (if f.isKnown then .ok () else refusal f .metaWithoutDimensions, f)

def guardedContent (brands : BrandRule) (children : GuardedChildren) (box : Box.Header)
    (f : Findings) : GuardedScript (Step Findings Outcome) := do
  if box.name = ascii "ftyp" then guardedStep f (guardedFileType brands box f)
  else if box.name = ascii "meta" then .done <$> guardedMetadata children box f
  else if box.name = ascii "hdlr" then
    match ← (guardedHandler box f).outcome with
    | .ok () => pure (.more f)
    | .error e =>
      writeNote (.debug s!"hdlr: {e.message} (ignored)")
      pure (.done (.ok (), f))
  else if box.name = ascii "iprp" ∨ box.name = ascii "ipco" then
    match ← children (← box.guardedPayload) f with
    | (.ok (), f) => pure (.more f)
    | outcome => pure (.done outcome)
  else if box.name = ascii "ispe" then guardedStep f (guardedExtent box f)
  else if box.name = ascii "irot" then guardedStep f (guardedRotation box f)
  else if box.name = ascii "mdat" then pure (.done (refusal f .mediaBeforeMeta, f))
  else pure (.more f)

def guardedLookInto (brands : BrandRule) (children : GuardedChildren) (box : Box.Header)
    (f : Findings) : GuardedScript (Step Findings Outcome) := do
  match ← checkStop.run with
  | .error e => pure (.done (.error e, f))
  | .ok () => guardedContent brands children box f

def guardedBox (brands : BrandRule) (children : GuardedChildren) (format : ImageFormat)
    (head : Bytes) (f : Findings) : GuardedScript (Step Findings Outcome) := do
  match ← (Box.guardedHeader format head).outcome with
  | .error e => pure (.done (levelEnd e, f))
  | .ok header =>
    header.guardedVisit (fun f e => (.error e, f)) (guardedLookInto brands children header f)

def guardedBoxes (brands : BrandRule) (children : GuardedChildren) (format : ImageFormat) :
    Nat → Findings → GuardedScript Outcome
  | 0, f => do
    let haul ← Box.Header.fetched Box.headLength
    pure (levelEnd haul.shortage, f)
  | most + 1, f => do
    let haul ← Box.Header.fetched Box.headLength
    if haul.bytes.length < Box.headLength then pure (levelEnd haul.shortage, f)
    else
      match ← guardedBox brands children format haul.bytes f with
      | .done outcome => pure outcome
      | .more f => guardedBoxes brands children format most f

def guardedLevel (brands : BrandRule) : Nat → Nat → GuardedChildren
  | 0, _, _, f => pure (refusal f .boxesTooDeep, f)
  | spare + 1, depth, room, f =>
    guardedBoxes brands
      (guardedEnclosed depth fun room f => do
        guardedLevel brands spare (← add range64 depth 1) room f)
      f.errorFormat (room / Box.headLength) f

def guarded (brands : BrandRule) : GuardedDecoder :=
  (Walk.ofGuarded (pure (.more (.ofBrands brands))) (fun _ => Box.headLength - 1)
    (fun f head => guardedBox brands
      (guardedEnclosed 0 fun room f => do
        guardedLevel brands maxDepth (← add range64 0 1) room f)
      (Findings.ofBrands brands).errorFormat head f)
    fun f e => pure (levelEnd e, f)).andThen (GuardedDecoder.onward fun r => liftM (conclude r))

variable {box : Box.Header}

section Boxes

open GuardedReading

theorem guardedNeeds_sound (f : Findings) (hsized : box.Sized) (n : Nat) (defect : Defect) :
    Sound (fun _ => n ≤ box.payload) (guardedNeeds f box n defect) (needs f box n defect) := by
  apply Sound.guard (Box.Header.guardedPayload_eq hsized)
  exact (Sound.require _ _ _).weaken fun _ h => of_decide_eq_true h

theorem guardedFileType_sound (brands : BrandRule) (hsized : box.Sized) (f : Findings) :
    Sound (fun _ => True) (guardedFileType brands box f) (fileType brands box f) := by
  unfold guardedFileType fileType
  apply (guardedNeeds_sound f hsized 8 _).bind
  intro _ hlong
  apply (Sound.exactly 4).bind
  intro major _
  cases brands.format? major with
  | some format => exact .pure trivial
  | none =>
    apply (Sound.any _).bind
    intro _ _
    apply Sound.guard (Box.Header.guardedPayload_eq hsized)
    apply Sound.guard (sub_eq hlong)
    apply (Sound.any _).bind
    rintro (_ | format) _
    · exact .note _ (.refuse _ _ _)
    · exact .pure trivial

theorem guardedHandler_sound (hsized : box.Sized) (f : Findings) :
    Sound (fun _ => True) (guardedHandler box f) (handler box f) := by
  unfold guardedHandler handler
  apply (guardedNeeds_sound f hsized 12 _).bind
  intro _ _
  apply (Sound.exactly 12).bind
  intro bs hbs
  apply Sound.guard (part_eq (by omega))
  dsimp only
  split
  · exact .note _ (.refuse _ _ _)
  · exact .pure trivial

theorem guardedExtent_sound (hsized : box.Sized) (f : Findings) :
    Sound (fun _ => True) (guardedExtent box f) (extent box f) := by
  apply (guardedNeeds_sound f hsized 12 _).bind
  intro _ _
  apply (Sound.any _).bind
  intro _ _
  apply (Sound.beNumber 4).bind
  intro width _
  apply (Sound.beNumber 4).bind
  intro height _
  exact .note _ (.pure trivial)

theorem guardedRotation_sound (hsized : box.Sized) (f : Findings) :
    Sound (fun _ => True) (guardedRotation box f) (rotation box f) := by
  apply (guardedNeeds_sound f hsized 1 _).bind
  intro _ _
  apply (Sound.beNumber 1).bind
  intro angle _
  exact .note _ (.pure trivial)

end Boxes

section Walk

open GuardedScript

def ChildrenSound (children' : GuardedChildren) (children : Children) : Prop :=
  ∀ room f, Sound (fun _ => True) (children' room f) (children room f)

theorem guardedStep_sound (f : Findings) {p' : GuardedReading Findings} {p : Reading Findings}
    (hp : p'.Sound (fun _ => True) p) : Sound (fun _ => True) (guardedStep f p') (reading f p) := by
  apply hp.outcome.bind
  rintro (e | f') _
  · exact .pure trivial
  · exact .pure trivial

theorem guardedEnclosed_sound {children' : GuardedChildren} {children : Children}
    (h : ChildrenSound children' children) (depth : Nat) :
    ChildrenSound (guardedEnclosed depth children') (enclosed depth children) := by
  intro room f
  apply (h room f).bind
  rintro ⟨e | u, f'⟩ _
  · cases e with
    | endOfData => exact .note _ (.pure trivial)
    | _ => exact .pure trivial
  · exact .pure trivial

theorem guardedMetadata_sound {children' : GuardedChildren} {children : Children}
    (h : ChildrenSound children' children) (hsized : box.Sized) (f : Findings) :
    Sound (fun _ => True) (guardedMetadata children' box f) (metadata children box f) := by
  have hneeds : GuardedReading.Sound (fun _ => 4 ≤ box.payload)
      (do guardedNeeds f box 4 .metaTooShort; skip 4) (do needs f box 4 .metaTooShort; skip 4) := by
    apply (guardedNeeds_sound f hsized 4 _).bind
    intro _ hlong
    exact (GuardedReading.Sound.any _).weaken fun _ _ => hlong
  apply hneeds.outcome.bind
  rintro (e | u) hlong
  · exact .pure trivial
  have hlong : 4 ≤ box.payload := hlong u rfl
  apply Sound.guard (Box.Header.guardedPayload_eq hsized)
  apply Sound.guard (sub_eq hlong)
  have hinside : Sound (fun _ => True)
      (if box.payload - 4 = 0 then pure (.ok (), f) else children' (box.payload - 4) f)
      (if box.payload = 4 then pure (.ok (), f) else children (box.payload - 4) f) := by
    by_cases hnone : box.payload = 4
    · rw [if_pos hnone, if_pos (by omega)]
      exact .pure trivial
    · rw [if_neg hnone, if_neg (by omega)]
      exact h _ _
  apply hinside.bind
  rintro ⟨e | u, f'⟩ _
  · exact .pure trivial
  · exact .pure trivial

theorem guardedContent_sound (brands : BrandRule) {children' : GuardedChildren}
    {children : Children} (h : ChildrenSound children' children) (hsized : box.Sized)
    (f : Findings) :
    Sound (fun _ => True) (guardedContent brands children' box f)
      (content brands children box f) := by
  unfold guardedContent content
  split
  · exact guardedStep_sound f (guardedFileType_sound brands hsized f)
  split
  · exact (guardedMetadata_sound h hsized f).map fun _ _ => trivial
  split
  · apply (guardedHandler_sound hsized f).outcome.bind
    rintro (e | u) _
    · exact .note _ (.pure trivial)
    · exact .pure trivial
  split
  · apply Sound.guard (Box.Header.guardedPayload_eq hsized)
    apply (h _ _).bind
    rintro ⟨e | u, f'⟩ _
    · exact .pure trivial
    · exact .pure trivial
  split
  · exact guardedStep_sound f (guardedExtent_sound hsized f)
  split
  · exact guardedStep_sound f (guardedRotation_sound hsized f)
  split
  · exact .pure trivial
  · exact .pure trivial

theorem guardedLookInto_sound (brands : BrandRule) {children' : GuardedChildren}
    {children : Children} (h : ChildrenSound children' children) (hsized : box.Sized)
    (f : Findings) :
    Sound (fun _ => True) (guardedLookInto brands children' box f)
      (lookInto brands children box f) := by
  apply (Sound.lift (.of_forall (fun _ => trivial) checkStop.run)).bind
  rintro (e | u) _
  · exact .pure trivial
  · exact guardedContent_sound brands h hsized f

theorem guardedBox_sound (brands : BrandRule) {children' : GuardedChildren} {children : Children}
    (h : ChildrenSound children' children) (format : ImageFormat) {head : Bytes}
    (hhead : head.length = Box.headLength) (f : Findings) :
    Sound (Step.All (fun _ => True) fun _ => True) (guardedBox brands children' format head f)
      (Heif.box brands children format head f) := by
  apply (Box.guardedHeader_sound format hhead).outcome.bind
  rintro (e | header) hsized
  · exact .pure trivial
  · have hlook := guardedLookInto_sound brands h (hsized header rfl) f
    exact Box.Header.guardedVisit_sound (hsized header rfl) (fun _ _ _ => trivial)
      (hlook.weaken fun step _ => GuardedReading.all_true step)

theorem guardedBoxes_sound (brands : BrandRule) {children' : GuardedChildren}
    {children : Children} (h : ChildrenSound children' children) (format : ImageFormat)
    (most : Nat) (f : Findings) :
    Sound (fun _ => True) (guardedBoxes brands children' format most f)
      (boxes brands children format most f) := by
  induction most generalizing f with
  | zero => exact .fetch fun haul _ => .done rfl trivial
  | succ most ih =>
    refine .fetch fun haul hlen => ?_
    change Sound _ (if haul.bytes.length < Box.headLength then _ else _) _
    split
    · exact .pure trivial
    · apply (guardedBox_sound brands h format (by omega) f).bind
      rintro (f' | outcome) _
      · exact ih f'
      · exact .pure trivial

theorem guardedLevel_sound (brands : BrandRule) {spare depth : Nat}
    (h : depth + spare = maxDepth + 1) :
    ChildrenSound (guardedLevel brands spare depth) (level brands spare) := by
  induction spare generalizing depth with
  | zero => exact fun _ _ => .pure trivial
  | succ spare ih =>
    intro room f
    have hdepth : depth = maxDepth - spare := by omega
    have hrange : maxDepth + 1 < range64 := by decide
    rw [guardedLevel, level, ← hdepth]
    apply guardedBoxes_sound
    apply guardedEnclosed_sound
    intro room f
    apply Sound.guard (add_eq (by omega))
    exact ih (by omega) room f

theorem guarded_sound (brands : BrandRule) : (guarded brands).Sound (decoder brands) := by
  have hchildren : ChildrenSound (fun room f => do
      guardedLevel brands maxDepth (← add range64 0 1) room f) (level brands maxDepth) := by
    intro room f
    have hlevel : ChildrenSound (guardedLevel brands maxDepth 1) (level brands maxDepth) :=
      guardedLevel_sound brands rfl
    apply Sound.guard (add_eq (by decide))
    exact hlevel room f
  have hguards : (walk brands).Guards (fun _ => True) (fun _ => True)
      (pure (.more (.ofBrands brands)))
      (fun f head => guardedBox brands
        (guardedEnclosed 0 fun room f => do
          guardedLevel brands maxDepth (← add range64 0 1) room f)
        (Findings.ofBrands brands).errorFormat head f)
      fun f e => pure (levelEnd e, f) := by
    constructor
    · exact .pure trivial
    · intro f head _ hlen
      exact guardedBox_sound brands (guardedEnclosed_sound hchildren 0) _ hlen f
    · intro f e _
      exact .pure trivial
  exact .andThen hguards fun r _ => .lift (.of_forall (fun _ => trivial) _)

end Walk

end Heif

end ImageProbe

import ImageProbe.Box.Visit
import ImageProbe.Proofs.Guarded

namespace ImageProbe

open Reading Guard

variable {α σ : Type}

namespace GuardedScript

def within (limit : Nat) : Script (Option α) → GuardedScript (α × Nat)
  | .done o => .mk (.done (o.map (·, limit)))
  | .fetch n next => .mk (.fetch (min n limit) fun h =>
    match sub limit h.bytes.length with
    | some left => within left (next h)
    | none => .done none)
  | .check halt next => .mk (.check (fun why => within limit (halt why)) (within limit next))
  | .note line next => .mk (.note line (within limit next))

theorem Sound.within {Q : α → Prop} {p' : GuardedScript α} {p : Script α} (hp : Sound Q p' p)
    (limit : Nat) : Sound (fun out => Q out.1) (GuardedScript.within limit p'.run) (p.within limit) := by
  rw [Sound] at hp
  generalize p'.run = q at hp
  induction hp generalizing limit with
  | done heq h => exact .done (congrArg (Option.map (·, limit)) heq) h
  | @fetch n next' next _ ih =>
    refine .fetch fun haul hlen => ?_
    have hleft : sub limit haul.bytes.length = some (limit - haul.bytes.length) :=
      sub_eq (Nat.le_trans hlen (Nat.min_le_right _ _))
    rw [hleft]
    exact ih haul (Nat.le_trans hlen (Nat.min_le_left _ _)) _
  | check _ _ ihhalt ih => exact .check (fun why => ihhalt why limit) (ih limit)
  | note line _ ih => exact .note line (ih limit)

end GuardedScript

namespace Box

def guardedHeader (format : ImageFormat) (head : Bytes) : GuardedReading Header := do
  let size := bigEndian (← part head 0 4)
  let name ← behind head 4
  if size = 0 then pure ⟨name, openSize, 8⟩
  else if size = 1 then
    let size ← beNumber 8
    require format (16 ≤ size) .wideBoxSize
    pure ⟨name, size, 16⟩
  else
    require format (8 ≤ size) .boxSize
    pure ⟨name, size, 8⟩

namespace Header

def guardedPayload (h : Header) : Option Nat := sub h.size h.offset

def fetched (n : Nat) : Script Haul := .fetch n .done

def guardedSkipRest (h : Header) (left : Nat) : GuardedScript (Except ProbeError Unit) :=
  if left = 0 then pure (.ok ())
  else do
    writeNote (h.restNote left)
    let haul ← fetched left
    let unread ← sub left haul.bytes.length
    if haul.bytes.length < left ∧ (haul.fault.isSome ∨ ¬ h.isOpen) then
      (h.leave unread (Except.error haul.shortage) : Script (Except ProbeError Unit))
    else pure (.ok ())

def guardedVisit (h : Header) (refused : σ → ProbeError → α) (look : GuardedScript (Step σ α)) :
    GuardedScript (Step σ α) := do
  match ← GuardedScript.within (← h.guardedPayload) look.run with
  | (.done a, left) => (h.leave left (Step.done a) : Script (Step σ α))
  | (.more s, left) =>
    match ← h.guardedSkipRest left with
    | .ok () => pure (.more s)
    | .error e => pure (.done (refused s e))

def Sized (h : Header) : Prop := h.offset ≤ h.size

theorem guardedPayload_eq {h : Header} (hsized : h.Sized) : h.guardedPayload = some h.payload :=
  sub_eq hsized

end Header

open GuardedReading in
theorem guardedHeader_sound (format : ImageFormat) {head : Bytes} (h : head.length = headLength) :
    (guardedHeader format head).Sound Header.Sized (header format head) := by
  unfold guardedHeader header
  apply Sound.guard (part_eq (by rw [h]; decide))
  apply Sound.guard (behind_eq (by rw [h]; decide))
  have hhead : slice head 0 4 = head.take 4 := rfl
  rw [hhead]
  dsimp only
  by_cases hopen : bigEndian (head.take 4) = 0
  · rw [if_pos hopen, if_pos hopen]
    have hlong : 8 ≤ openSize := by decide
    exact .pure hlong
  rw [if_neg hopen, if_neg hopen]
  by_cases hwide : bigEndian (head.take 4) = 1
  · rw [if_pos hwide, if_pos hwide]
    apply (Sound.beNumber 8).bind
    intro size _
    apply (Sound.require _ _ _).bind
    intro _ hsize
    have hlong : 16 ≤ size := of_decide_eq_true hsize
    exact .pure hlong
  · rw [if_neg hwide, if_neg hwide]
    apply (Sound.require _ _ _).bind
    intro _ hsize
    have hlong : 8 ≤ bigEndian (head.take 4) := of_decide_eq_true hsize
    exact .pure hlong

namespace Header

open GuardedScript

theorem guardedSkipRest_sound (h : Header) (left : Nat) :
    Sound (fun _ => True) (h.guardedSkipRest left) (h.skipRest left) := by
  unfold guardedSkipRest skipRest
  split
  · exact .pure trivial
  refine .note _ (.fetch fun haul hlen => ?_)
  change Sound _ (liftM (sub left haul.bytes.length) >>= _) _
  apply Sound.guard (sub_eq hlen)
  split
  · exact .lift (.of_forall (fun _ => trivial) _)
  · exact .pure trivial

theorem guardedVisit_sound {h : Header} (hsized : h.Sized) {refused : σ → ProbeError → α}
    {I : σ → Prop} {Q : α → Prop} (hrefused : ∀ s e, I s → Q (refused s e))
    {look' : GuardedScript (Step σ α)} {look : Script (Step σ α)}
    (hlook : Sound (Step.All I Q) look' look) :
    Sound (Step.All I Q) (h.guardedVisit refused look') (h.visit refused look) := by
  unfold guardedVisit visit
  apply Sound.guard (guardedPayload_eq hsized)
  apply (hlook.within _).bind
  rintro ⟨s | a, left⟩ hall
  · apply (h.guardedSkipRest_sound left).bind
    rintro (e | u) _
    · exact .pure (hrefused s e hall)
    · exact .pure hall
  · exact .lift (Script.ensures_note _ _ hall)

end Header

end Box

end ImageProbe

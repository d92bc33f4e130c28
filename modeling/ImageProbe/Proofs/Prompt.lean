import ImageProbe.Proofs.Heeds

namespace ImageProbe

variable {α β σ ρ : Type} [ByteReader ρ]

def Lost (ending : Option Fault) (r : Except ProbeError α) : Prop := r = .error (shortageAt ending)

namespace Script

/-- A delivery that falls short ends the script, with a value that tells how the stream ends. -/
def Prompt (L : Option Fault → α → Prop) : Script α → Prop
  | done _ => True
  | fetch n next => ∀ h : Haul, (h.fault = none → (next h).Prompt L) ∧
      (h.bytes.length < n → (next h).Ends (L h.fault))
  | check halt next => (∀ why, (halt why).Prompt L) ∧ next.Prompt L
  | note _ next => next.Prompt L

theorem Ends.prompt {Q : α → Prop} {p : Script α} (hp : p.Ends Q) (L : Option Fault → α → Prop) :
    p.Prompt L := by
  induction p with
  | done a => exact trivial
  | fetch n next => exact hp.elim
  | check halt next => exact hp.elim
  | note line next ih => exact ih hp

variable {L : Option Fault → α → Prop} {M : Option Fault → β → Prop} {p : Script α}

theorem Prompt.bind {f : α → Script β} (hp : p.Prompt L) (hf : ∀ a, (f a).Prompt M)
    (hlost : ∀ e a, L e a → (f a).Ends (M e)) : (p >>= f).Prompt M := by
  change (p.bind f).Prompt M
  induction p with
  | done a => exact hf a
  | fetch n next ih =>
    intro h
    exact ⟨fun hnone => ih h ((hp h).1 hnone), fun hshort => ((hp h).2 hshort).bind (hlost h.fault)⟩
  | check halt next ihhalt ih => exact ⟨fun why => ihhalt why (hp.1 why), ih hp.2⟩
  | note line next ih => exact ih hp

theorem Prompt.map (f : α → β) (hp : p.Prompt L) (hlost : ∀ e a, L e a → M e (f a)) :
    (f <$> p).Prompt M := hp.bind (fun _ => trivial) hlost

theorem Prompt.within (hp : p.Prompt L) (limit : Nat) :
    (p.within limit).Prompt fun e a => L e a.1 := by
  induction p generalizing limit with
  | done a => exact trivial
  | fetch n next ih =>
    -- A delivery cut down by the limit alone brings no fault, and the script goes on with it.
    intro h
    refine ⟨fun hnone => ih h ((hp h).1 hnone) _, fun hshort => ?_⟩
    exact ((hp h).2 (Nat.lt_of_lt_of_le hshort (Nat.min_le_left _ _))).within _
  | check halt next ihhalt ih => exact ⟨fun why => ihhalt why (hp.1 why) limit, ih hp.2 limit⟩
  | note line next ih => exact ih hp limit

end Script

namespace Reading

structure Prompt (p : Reading α) : Prop where
  lost : p.run.Prompt Lost
  heeds : p.run.Heeds Told

theorem Prompt.pure (a : α) : Prompt (Pure.pure a : Reading α) := ⟨trivial, (not_told_ok · a)⟩

theorem Prompt.refuse (format : ImageFormat) (defect : Defect) :
    Prompt (refuse format defect : Reading α) := ⟨trivial, nofun⟩

theorem Prompt.note (line : Note) : Prompt (writeNote line : Reading Unit) :=
  ⟨trivial, (not_told_ok · ())⟩

theorem Prompt.checkStop : Prompt checkStop where
  lost := ⟨fun _ => trivial, trivial⟩
  heeds := ⟨fun _ => rfl, (not_told_ok · ())⟩

theorem Prompt.require (format : ImageFormat) (holds : Bool) (defect : Defect) :
    Prompt (require format holds defect) := by
  unfold Reading.require
  split
  · exact .pure ()
  · exact .refuse format defect

theorem Prompt.exactly (n : Nat) : Prompt (exactly n) where
  lost h := by
    refine ⟨fun _ => trivial, fun hshort => ?_⟩
    change Lost h.fault (if h.bytes.length < n then .error h.shortage else .ok h.bytes)
    rw [if_pos hshort]
    rfl
  heeds h why := by
    split
    · exact (shortageAt_plain h.fault).untold why
    · exact not_told_ok why _

theorem heeds_bind {p : Reading α} {f : α → Reading β} (hp : p.run.Heeds Told)
    (hf : ∀ a, (f a).run.Heeds Told) : (p >>= f).run.Heeds Told := by
  rw [ExceptT.run_bind]
  exact hp.handle hf (fun _ he => he.untold) fun _ => rfl

theorem Prompt.bind {p : Reading α} {f : α → Reading β} (hp : Prompt p) (hf : ∀ a, Prompt (f a)) :
    Prompt (p >>= f) where
  lost := by
    rw [ExceptT.run_bind]
    apply hp.lost.bind
    · rintro (e | a)
      · exact trivial
      · exact (hf a).lost
    · rintro e r rfl
      rfl
  heeds := heeds_bind hp.heeds fun a => (hf a).heeds

theorem Prompt.map {p : Reading α} (hp : Prompt p) (f : α → β) : Prompt (f <$> p) where
  lost := by
    apply hp.lost.bind
    · rintro (e | a) <;> exact trivial
    · rintro e r rfl
      rfl
  heeds := heeds_bind hp.heeds fun a => (Prompt.pure (f a)).heeds

theorem Prompt.skip (n : Nat) : Prompt (skip n) := (Prompt.exactly n).map _

theorem Prompt.beNumber (n : Nat) : Prompt (beNumber n) := (Prompt.exactly n).map _

theorem Prompt.leNumber (n : Nat) : Prompt (leNumber n) := (Prompt.exactly n).map _

end Reading

namespace Step

def Lost (L : Option Fault → α → Prop) (ending : Option Fault) : Step σ α → Prop
  | more _ => ending = none
  | done a => L ending a

theorem settle_lost (ending : Option Fault) (r : Except ProbeError (Step σ α))
    (h : ImageProbe.Lost ending r) : Lost ImageProbe.Lost ending (settle r) := by
  cases h
  rfl

end Step

namespace Reading.Prompt

variable {p : Reading (Step σ α)}

theorem settle_lost (hp : Prompt p) : (Step.settle <$> p.run).Prompt (Step.Lost Lost) :=
  hp.lost.map _ Step.settle_lost

theorem settle_heeds (hp : Prompt p) : (Step.settle <$> p.run).Heeds (Step.Told Told) :=
  hp.heeds.map _ Step.settle_told

end Reading.Prompt

namespace Box

theorem header_prompt (format : ImageFormat) (head : Bytes) :
    Reading.Prompt (Box.header format head) := by
  unfold Box.header
  dsimp only
  split
  · exact .pure _
  split
  · apply (Reading.Prompt.beNumber 8).bind
    intro size
    exact (Reading.Prompt.require _ _ _).bind fun _ => .pure _
  · exact (Reading.Prompt.require _ _ _).bind fun _ => .pure _

namespace Header

open Script

variable (h : Header)

theorem leave_prompt (L : Option Fault → α → Prop) (left : Nat) (a : α) :
    (h.leave left a).Prompt L := by
  have hends : (h.leave left a).Ends fun _ => True := ends_notes _ trivial
  exact hends.prompt L

theorem skipRest_prompt (left : Nat) :
    (h.skipRest left).Prompt fun e r => Lost e r ∨ e = none ∧ r = .ok () := by
  unfold skipRest
  split
  · exact trivial
  · refine fun haul => ⟨fun _ => ?_, fun hshort => ?_⟩
    · dsimp only
      split
      · exact h.leave_prompt _ _ _
      · exact trivial
    · dsimp only
      split
      · exact ends_notes _ (.inl rfl)
      · rename_i hopen
        -- An open box may end with the stream, which then has no fault.
        rw [and_iff_right hshort, not_or, Bool.not_eq_true, Option.isSome_eq_false_iff,
          Option.isNone_iff_eq_none] at hopen
        exact .inr ⟨hopen.1, rfl⟩

theorem visit_prompt {L : Option Fault → α → Prop} {refused : σ → ProbeError → α}
    (hrefused : ∀ s e, L e (refused s (shortageAt e))) {look : Script (Step σ α)}
    (hlook : look.Prompt fun e x => ∃ a, x = .done a ∧ L e a) :
    (h.visit refused look).Prompt (Step.Lost L) := by
  apply (hlook.within h.payload).bind
  · rintro ⟨s | a, left⟩
    · apply (h.skipRest_prompt left).bind
      · rintro (e | u) <;> exact trivial
      · rintro e r (rfl | ⟨he, rfl⟩)
        · exact hrefused s e
        · exact he
    · exact h.leave_prompt _ _ _
  · rintro e ⟨x, left⟩ ⟨a, rfl, ha⟩
    exact ends_notes _ ha

end Header

end Box

namespace Walk

structure Prompt (w : Walk α) (L : Option Fault → α → Prop) : Prop where
  start : w.start.Prompt (Step.Lost L)
  round (state : w.State) (bs : Bytes) : (w.round state bs).Prompt (Step.Lost L)
  close (state : w.State) (ending : Option Fault) : (w.close state (shortageAt ending)).Ends (L ending)

variable {L : Option Fault → α → Prop} {M : Option Fault → β → Prop} {w : Walk α}

theorem Prompt.ofScript {p : Script α} (hp : p.Prompt L) : (ofScript p).Prompt L where
  start := hp.map _ fun _ _ h => h
  round state := state.elim
  close state := state.elim

theorem Prompt.andThen (hw : w.Prompt L) {f : α → Script β} (hf : ∀ a, (f a).Prompt M)
    (hlost : ∀ e a, L e a → (f a).Ends (M e)) : (w.andThen f).Prompt M := by
  have hthen (x : Step w.State α) : (thenStep f x).Prompt (Step.Lost M) := by
    cases x with
    | more s => exact trivial
    | done a => exact (hf a).map _ fun _ _ h => h
  have hends (e : Option Fault) (x : Step w.State α) (h : Step.Lost L e x) :
      (thenStep f x).Ends (Step.Lost M e) := by
    cases x with
    | more s => exact h
    | done a => exact (hlost e a h).bind fun _ h => h
  exact {
    start := hw.start.bind hthen hends
    round := fun state bs => (hw.round state bs).bind hthen hends
    close := fun state e => (hw.close state e).bind (hlost e) }

theorem Prompt.turn (hw : w.Prompt L) (state : w.State) : (w.turn state).Prompt (Step.Lost L) := by
  intro h
  have hclose : (.done <$> w.close state h.shortage : Script (Step w.State α)).Ends
      (Step.Lost L h.fault) := (hw.close state h.fault).bind fun _ h => h
  refine ⟨fun _ => ?_, fun hshort => ?_⟩
  · dsimp only
    split
    · exact hclose.prompt _
    · exact hw.round state h.bytes
  · dsimp only
    rwa [if_pos hshort]

end Walk

namespace Decoder

theorem decode_andThen {w : Walk α} {conclude : α → Script (Except ProbeError ImageInfo)}
    {verdict : α → Except ProbeError ImageInfo} (h : ∀ a, (conclude a).Ends (· = verdict a))
    (stop : Stop) (s : Session ρ) :
    (Decoder.decode (w.andThen conclude) stop s).1 = verdict (w.run stop s).1 := by
  obtain ⟨_, log, rfl, hconclude⟩ := (h (w.run stop s).1).run stop (w.run stop s).2
  rw [Decoder.decode, w.run_andThen, hconclude]

end Decoder

end ImageProbe

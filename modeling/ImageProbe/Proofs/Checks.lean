import ImageProbe.Box.Visit
import ImageProbe.Proofs.Eval

namespace ImageProbe

variable {α β ρ σ : Type} [ByteReader ρ]

open ByteReader

namespace Script

def checksOn : Script α → Tape → Nat
  | done _, _ => 0
  | fetch n next, t => (next (t.haul n)).checksOn (t.drop n)
  | check _ next, t => next.checksOn t + 1
  | note _ next, t => next.checksOn t

theorem checksOn_bind (p : Script α) (f : α → Script β) (t : Tape) :
    (p >>= f).checksOn t = p.checksOn t + (f (p.eval t).1).checksOn (p.eval t).2 := by
  change (p.bind f).checksOn t = _
  induction p generalizing t with
  | done a => exact (Nat.zero_add _).symm
  | fetch n next ih => exact ih _ _
  | check halt next _ ih =>
    rw [bind, checksOn, checksOn, ih, eval]
    omega
  | note line next ih => exact ih t

theorem checksOn_clip (p : Script α) (limit : Nat) (t : Tape) :
    (p.within limit).checksOn t = p.checksOn (t.clip limit) := by
  induction p generalizing limit t with
  | done a => rfl
  | fetch n next ih =>
    rw [within, checksOn, checksOn, Tape.haul_clip, Tape.drop_clip]
    exact ih _ _ _
  | check halt next _ ih => exact congrArg (· + 1) (ih limit t)
  | note line next ih => exact ih limit t

theorem run_never_checks (p : Script α) (s : Session ρ) :
    (p.run .never s).2.checks = s.checks + p.checksOn (tape s.reader) := by
  induction p generalizing s with
  | done a => rfl
  | fetch n next ih =>
    rw [run_fetch, ih, checksOn, (fetch_eq s.reader n).2]
  | check halt next _ ih =>
    exact (ih { s with checks := s.checks + 1 }).trans (Nat.add_right_comm _ 1 _)
  | note line next ih => exact ih { s with log := line :: s.log }

def Quiet (p : Script α) : Prop := ∀ t, p.checksOn t = 0

theorem Quiet.bind {p : Script α} {f : α → Script β} (hp : p.Quiet) (hf : ∀ a, (f a).Quiet) :
    (p >>= f).Quiet := by
  intro t
  rw [checksOn_bind, hp, hf]

theorem quiet_notes (lines : List Note) (a : α) : (lines.foldr note (done a)).Quiet := by
  intro t
  induction lines with
  | nil => rfl
  | cons line lines ih => exact ih

end Script

namespace Reading

def Quiet (p : Reading α) : Prop := p.run.Quiet

theorem Quiet.pure (a : α) : Quiet (Pure.pure a) := fun _ => rfl

theorem Quiet.bind {p : Reading α} {f : α → Reading β} (hp : Quiet p) (hf : ∀ a, Quiet (f a)) :
    Quiet (p >>= f) := by
  rw [Quiet, ExceptT.run_bind]
  apply Script.Quiet.bind hp
  rintro (e | a)
  · exact fun _ => rfl
  · exact hf a

theorem Quiet.exactly (n : Nat) : Quiet (exactly n) := fun _ => rfl

theorem Quiet.skip (n : Nat) : Quiet (skip n) := (Quiet.exactly n).bind fun _ => .pure ()

theorem Quiet.beNumber (n : Nat) : Quiet (beNumber n) := (Quiet.exactly n).bind fun _ => .pure _

theorem Quiet.refuse (format : ImageFormat) (defect : Defect) :
    Quiet (refuse format defect : Reading α) := fun _ => rfl

theorem Quiet.require (format : ImageFormat) (c : Bool) (defect : Defect) :
    Quiet (require format c defect) := by
  rw [Reading.require]
  split
  · exact .pure ()
  · exact .refuse format defect

theorem Quiet.note (line : Note) {p : Reading α} (hp : Quiet p) :
    Quiet (writeNote line >>= fun _ => p) := hp

end Reading

namespace Box.Header

theorem quiet_skipRest (h : Header) (left : Nat) : (h.skipRest left).Quiet := by
  rw [skipRest]
  split
  · exact fun _ => rfl
  · intro t
    rw [Script.checksOn, Script.checksOn]
    split
    · exact Script.quiet_notes _ _ _
    · rfl

theorem checksOn_visit (h : Header) (refused : σ → ProbeError → α) (look : Script (Step σ α))
    (t : Tape) : (h.visit refused look).checksOn t = look.checksOn (t.clip h.payload) := by
  rw [visit, Script.checksOn_bind, Script.checksOn_clip]
  apply Nat.add_eq_left.2
  rcases ((look.within h.payload).eval t).1 with ⟨s | a, left⟩
  · refine (h.quiet_skipRest left).bind ?_ _
    rintro (e | u)
    · exact fun _ => rfl
    · exact fun _ => rfl
  · exact Script.quiet_notes _ _ _

theorem quiet_header (format : ImageFormat) (head : Bytes) :
    Reading.Quiet (Box.header format head) := by
  unfold Box.header
  dsimp only
  split
  · exact .pure _
  split
  · apply (Reading.Quiet.beNumber 8).bind
    intro size
    exact (Reading.Quiet.require _ _ _).bind fun _ => .pure _
  · exact (Reading.Quiet.require _ _ _).bind fun _ => .pure _

end Box.Header

end ImageProbe

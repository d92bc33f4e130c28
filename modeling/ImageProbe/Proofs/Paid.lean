import ImageProbe.Proofs.Contained

namespace ImageProbe

open ByteReader

variable {α β σ ρ : Type} [ByteReader ρ] {price credit credit' : Nat}

def Showing.account (price : Nat) (left : α → Nat) (out : Showing α) : Nat :=
  price * out.2.2 + out.2.1.bytes.length + left out.1

namespace Script

/-- Each check is paid with so many bytes, which are taken for it or were at hand before. `left`
tells how many are still at hand at the end. -/
def Pays (price credit : Nat) (left : α → Nat) (p : Script α) : Prop :=
  ∀ (stop : Stop) (t : Tape) (k : Nat),
    Showing.account price left (p.outcome stop t k) ≤ price * k + t.bytes.length + credit

variable {left left' : α → Nat}

theorem Pays.mono {p : Script α} (hp : p.Pays price credit left) (hcredit : credit ≤ credit')
    (hleft : ∀ a, left' a ≤ left a) : p.Pays price credit' left' := by
  intro stop t k
  refine Nat.le_trans ?_ (Nat.le_trans (hp stop t k) (Nat.add_le_add_left hcredit _))
  exact Nat.add_le_add_left (hleft _) _

theorem Pays.done {a : α} (h : left a ≤ credit) : (done a).Pays price credit left :=
  fun _ t k => Nat.add_le_add_left h (price * k + t.bytes.length)

theorem Pays.fetch {n : Nat} {next : Haul → Script α}
    (hnext : ∀ haul, haul.bytes.length ≤ n →
      (next haul).Pays price (credit + haul.bytes.length) left) :
    (fetch n next).Pays price credit left := by
  intro stop t k
  have hhaul : (t.haul n).bytes.length = min n t.bytes.length := List.length_take
  have hpaid := hnext (t.haul n) (by omega) stop (t.drop n) k
  rw [Tape.drop_length] at hpaid
  rw [outcome_fetch]
  omega

theorem Pays.check {halt : StopReason → Script α} {next : Script α} (hcredit : price ≤ credit)
    (hhalt : ∀ why, (halt why).Pays price (credit - price) left)
    (hnext : next.Pays price (credit - price) left) :
    (check halt next).Pays price credit left := by
  intro stop t k
  have hpaid {q : Script α} (hq : q.Pays price (credit - price) left) :
      Showing.account price left (q.outcome stop t (k + 1)) ≤
        price * k + t.bytes.length + credit := by
    have hle := hq stop t (k + 1)
    rw [Nat.mul_succ] at hle
    omega
  rw [outcome_check]
  cases stop k with
  | none => exact hpaid hnext
  | some why => exact hpaid (hhalt why)

theorem Pays.note (line : Note) {next : Script α} (hnext : next.Pays price credit left) :
    (note line next).Pays price credit left := by
  intro stop t k
  rw [outcome_note]
  exact hnext stop t k

theorem Pays.bind {p : Script α} {f : α → Script β} {left' : β → Nat}
    (hp : p.Pays price credit left) (hf : ∀ a, (f a).Pays price (left a) left') :
    (p >>= f).Pays price credit left' := by
  intro stop t k
  rw [outcome_bind]
  exact Nat.le_trans (hf _ stop _ _) (hp stop t k)

theorem Pays.quiet {p : Script α} (hp : p.Quiet) : p.Pays price credit fun _ => credit := by
  intro stop t k
  rw [outcome_of_checksOn stop (hp t)]
  exact Nat.add_le_add_right (Nat.add_le_add_left (p.eval_length_le t) _) credit

theorem Pays.ends {Q : α → Prop} {p : Script α} (hp : p.Ends Q) :
    p.Pays price credit fun _ => credit := by
  intro stop t k
  obtain ⟨a, -, hout⟩ := hp.outcome stop
  rw [hout]
  exact Nat.le_refl _

theorem Pays.map {p : Script α} {f : α → β} {left : β → Nat}
    (hp : p.Pays price credit fun a => left (f a)) : (f <$> p).Pays price credit left :=
  hp.bind fun _ => .done (Nat.le_refl _)

theorem outcome_within_taken (stop : Stop) (p : Script α) (limit : Nat) (t : Tape) (k : Nat) :
    ∃ room left, (p.within limit).outcome stop t k =
        (((p.outcome stop (t.clip limit) k).1, room), left,
          (p.outcome stop (t.clip limit) k).2.2) ∧
      left.bytes.length + (t.clip limit).bytes.length =
        (p.outcome stop (t.clip limit) k).2.1.bytes.length + t.bytes.length := by
  induction p generalizing limit t k with
  | done a => exact ⟨limit, t, rfl, Nat.add_comm _ _⟩
  | fetch n next ih =>
    obtain ⟨room, left, hout, htaken⟩ := ih (t.haul (min n limit))
      (limit - (t.haul (min n limit)).bytes.length) (t.drop (min n limit)) k
    refine ⟨room, left, ?_, ?_⟩
    · rw [within, outcome_fetch, outcome_fetch, Tape.haul_clip, Tape.drop_clip]
      exact hout
    · rw [outcome_fetch, Tape.haul_clip, Tape.drop_clip]
      simp only [Tape.clip, Tape.haul, List.length_take, Tape.drop_length] at htaken ⊢
      omega
  | check halt next ihhalt ih =>
    rw [within, outcome_check, outcome_check]
    cases stop k with
    | none => exact ih limit t (k + 1)
    | some why => exact ihhalt why limit t (k + 1)
  | note line next ih =>
    rw [within, outcome_note, outcome_note]
    exact ih limit t k

theorem Pays.within {p : Script α} (hp : p.Pays price credit left) (limit : Nat) :
    (p.within limit).Pays price credit fun out => left out.1 := by
  intro stop t k
  obtain ⟨room, rest, hout, htaken⟩ := p.outcome_within_taken stop limit t k
  have hpaid := hp stop (t.clip limit) k
  rw [hout]
  simp only [Showing.account] at hpaid ⊢
  omega

end Script

def Step.atHand (atHand : σ → Nat) : Step σ α → Nat
  | .more s => atHand s
  | .done _ => 0

namespace Reading

def Pays (price credit : Nat) (left : α → Nat) (p : Reading α) : Prop :=
  Script.Pays price credit (fun r => r.toOption.elim 0 left) p.run

variable {left left' : α → Nat} {p : Reading α}

theorem Pays.mono (hp : p.Pays price credit left) (hcredit : credit ≤ credit')
    (hleft : ∀ a, left' a ≤ left a) : p.Pays price credit' left' := by
  apply Script.Pays.mono hp hcredit
  rintro (e | a)
  · exact Nat.le_refl 0
  · exact hleft a

theorem Pays.pure {a : α} (h : left a ≤ credit) :
    (Pure.pure a : Reading α).Pays price credit left :=
  Script.Pays.done h

theorem Pays.refuse (format : ImageFormat) (defect : Defect) :
    (refuse format defect : Reading α).Pays price credit left :=
  Script.Pays.done (Nat.zero_le credit)

theorem Pays.bind {f : α → Reading β} {left' : β → Nat} (hp : p.Pays price credit left)
    (hf : ∀ a, (f a).Pays price (left a) left') : (p >>= f).Pays price credit left' := by
  rw [Pays, ExceptT.run_bind]
  apply Script.Pays.bind hp
  rintro (e | a)
  · exact .done (Nat.le_refl 0)
  · exact hf a

theorem Pays.check (hcredit : price ≤ credit) (hp : p.Pays price (credit - price) left) :
    (checkStop >>= fun _ => p : Reading α).Pays price credit left :=
  Script.Pays.check hcredit (fun _ => .done (Nat.zero_le _)) hp

theorem Pays.note (line : Note) (hp : p.Pays price credit left) :
    (writeNote line >>= fun _ => p : Reading α).Pays price credit left :=
  Script.Pays.note line hp

theorem Pays.quiet (hp : p.Quiet) : p.Pays price credit fun _ => credit := by
  apply (Script.Pays.quiet hp).mono (Nat.le_refl credit)
  rintro (e | a)
  · exact Nat.zero_le credit
  · exact Nat.le_refl credit

theorem Pays.exactly (n : Nat) : (exactly n).Pays price credit fun _ => credit + n := by
  refine .fetch fun haul _ => ?_
  apply Script.Pays.done
  split
  · exact Nat.zero_le _
  · exact Nat.add_le_add_left (by omega) credit

theorem Pays.leNumber (n : Nat) : (leNumber n).Pays price credit fun _ => credit + n :=
  (Pays.exactly n).bind fun _ => .pure (Nat.le_refl _)

theorem Pays.settle {left : σ → Nat} {p : Reading (Step σ α)}
    (hp : p.Pays price credit (Step.atHand left)) :
    (Step.settle <$> p.run).Pays price credit (Step.atHand left) := by
  apply Script.Pays.map
  apply Script.Pays.mono hp (Nat.le_refl credit)
  rintro (e | s | a)
  · exact Nat.le_refl 0
  · exact Nat.le_refl _
  · exact Nat.le_refl 0

end Reading

theorem Box.Header.visit_pays (h : Header) {refused : σ → ProbeError → α}
    {look : Script (Step σ α)} (hlook : look.Pays price credit fun _ => 0) :
    (h.visit refused look).Pays price credit fun _ => 0 := by
  apply (hlook.within h.payload).bind
  rintro ⟨s | a, left⟩
  · apply (Script.Pays.quiet (h.quiet_skipRest left)).bind
    rintro (e | u)
    · exact .done (Nat.le_refl 0)
    · exact .done (Nat.le_refl 0)
  · exact .quiet (Script.quiet_notes _ _)

namespace Walk

variable {w : Walk α} {atHand : w.State → Nat}

structure Pays (price : Nat) (w : Walk α) (atHand : w.State → Nat) : Prop where
  start : w.start.Pays price 0 (Step.atHand atHand)
  round (state : w.State) (bs : Bytes) : bs.length = w.reach state + 1 →
    (w.round state bs).Pays price (atHand state + bs.length) (Step.atHand atHand)
  close (state : w.State) (e : ProbeError) : (w.close state e).Pays price 0 fun _ => 0

theorem Pays.of_even (hstart : w.start.Pays price 0 fun _ => 0)
    (hround : ∀ state bs, bs.length = w.reach state + 1 →
      (w.round state bs).Pays price bs.length fun _ => 0)
    (hclose : ∀ state e, (w.close state e).Pays price 0 fun _ => 0) :
    w.Pays price fun _ => 0 := by
  have hstep (step : Step w.State α) : step.atHand (fun _ => 0) ≤ 0 := by
    cases step <;> exact Nat.le_refl 0
  exact {
    start := hstart.mono (Nat.le_refl 0) hstep
    round := fun state bs hbs => (hround state bs hbs).mono (Nat.le_add_left _ 0) hstep
    close := hclose }

theorem Pays.turn (hw : w.Pays price atHand) (state : w.State) :
    (w.turn state).Pays price (atHand state) (Step.atHand atHand) := by
  refine .fetch fun haul hlength => ?_
  have hclose : (.done <$> w.close state haul.shortage : Script (Step w.State α)).Pays price 0
      (Step.atHand atHand) := .map (hw.close state haul.shortage)
  split
  · exact hclose.mono (Nat.zero_le _) fun _ => Nat.le_refl _
  · exact hw.round state haul.bytes (by omega)

theorem Pays.outcomeFrom (hw : w.Pays price atHand) (stop : Stop) (state : w.State) (t : Tape)
    (k : Nat) :
    Showing.account price (fun _ => 0) (w.outcomeFrom stop state t k) ≤
      price * k + t.bytes.length + atHand state := by
  induction state, t, k using w.outcomeFrom_induction stop with
  | step state t k ih =>
    have hturn := hw.turn state stop t k
    rw [outcomeFrom_eq]
    rcases hout : (w.turn state).outcome stop t k with ⟨state' | a, t', k'⟩
    · rw [hout] at hturn
      exact Nat.le_trans (ih state' t' k' hout) hturn
    · rw [hout] at hturn
      exact hturn

theorem Pays.outcome (hw : w.Pays price atHand) (stop : Stop) (t : Tape) (k : Nat) :
    Showing.account price (fun _ => 0) (w.outcome stop t k) ≤ price * k + t.bytes.length := by
  have hstart := hw.start stop t k
  rw [outcome_eq]
  rcases hout : w.start.outcome stop t k with ⟨state | a, t', k'⟩
  · rw [hout] at hstart
    exact Nat.le_trans (hw.outcomeFrom stop state t' k') hstart
  · rw [hout] at hstart
    exact hstart

theorem Pays.andThen (hw : w.Pays price atHand) {f : α → Script β}
    (hf : ∀ a, (f a).Pays price 0 fun _ => 0) : (w.andThen f).Pays price atHand := by
  have hstep (step : Step w.State α) :
      (thenStep f step).Pays price (step.atHand atHand) (Step.atHand atHand) := by
    cases step with
    | more state => exact .done (Nat.le_refl _)
    | done a => exact .map (hf a)
  exact {
    start := hw.start.bind hstep
    round := fun state bs hbs => (hw.round state bs hbs).bind hstep
    close := fun state e => (hw.close state e).bind hf }

theorem Pays.ofScript {p : Script α} (hp : p.Pays price 0 fun _ => 0) :
    (ofScript p).Pays price Empty.elim where
  start := .map hp
  round := nofun
  close := nofun

end Walk

namespace Decoder

/-- Whatever the stream and the host's answers, so many bytes have been taken for each check. -/
def Pays (price : Nat) (d : Decoder) : Prop :=
  ∀ (ρ : Type) [ByteReader ρ] (stop : Stop) (r : ρ) (log : List Note),
    let s := (d.decode stop ⟨r, 0, log⟩).2
    price * s.checks ≤ taken r s.reader

theorem Pays.of_walk {d : Decoder} {atHand : d.State → Nat} (hd : Walk.Pays price d atHand) :
    d.Pays price := by
  intro ρ _ stop r log s
  have hpaid := hd.outcome stop (tape r) 0
  have hcore : (d.run stop ⟨r, 0, log⟩).map id Session.core = d.outcome stop (tape r) 0 :=
    d.outcome_core stop ⟨r, 0, log⟩
  have haccount : price * s.checks + (tape s.reader).bytes.length ≤
      price * 0 + (tape r).bytes.length := by
    rw [← hcore] at hpaid
    rcases hout : d.run stop ⟨r, 0, log⟩ with ⟨result, s'⟩
    rw [hout] at hpaid
    obtain rfl : s = s' := congrArg Prod.snd hout
    exact hpaid
  rw [taken]
  omega

theorem Pays.ofReading {p : Reading ImageInfo} (hp : p.Pays price 0 fun _ => 0) :
    (Decoder.ofReading p).Pays price := by
  have hrun : p.run.Pays price 0 fun _ => 0 :=
    Script.Pays.mono hp (Nat.le_refl 0) fun _ => Nat.zero_le _
  exact .of_walk (.ofScript hrun)

end Decoder

end ImageProbe

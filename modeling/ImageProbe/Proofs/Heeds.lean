import ImageProbe.Box.Visit
import ImageProbe.Proofs.Run

namespace ImageProbe

open ByteReader

variable {α β σ ρ : Type} [ByteReader ρ]

structure Session.Precedes (s t : Session ρ) : Prop where
  checks : s.checks ≤ t.checks
  left : (tape t.reader).bytes.length ≤ (tape s.reader).bytes.length

namespace Session.Precedes

variable {s t u : Session ρ}

theorem refl (s : Session ρ) : s.Precedes s := ⟨Nat.le_refl _, Nat.le_refl _⟩

theorem trans (h : s.Precedes t) (h' : t.Precedes u) : s.Precedes u :=
  ⟨Nat.le_trans h.checks h'.checks, Nat.le_trans h'.left h.left⟩

theorem check (s : Session ρ) : s.Precedes { s with checks := s.checks + 1 } :=
  ⟨Nat.le_succ _, Nat.le_refl _⟩

end Session.Precedes

theorem Script.run_precedes (stop : Stop) (p : Script α) (s : Session ρ) :
    s.Precedes (p.run stop s).2 := by
  induction p generalizing s with
  | done a => exact .refl s
  | fetch n next ih =>
    have hfetch : s.Precedes { s with reader := (ByteReader.fetch s.reader n).2 } := by
      refine ⟨Nat.le_refl _, ?_⟩
      simp only [(fetch_eq s.reader n).2, Tape.drop_length]
      exact Nat.sub_le _ _
    exact hfetch.trans (ih _ _)
  | check halt next ihhalt ih =>
    rw [run]
    cases stop s.checks with
    | none => exact (Session.Precedes.check s).trans (ih _)
    | some why => exact (Session.Precedes.check s).trans (ihhalt why _)
  | note line next ih => exact ⟨(ih { s with log := line :: s.log }).checks, (ih _).left⟩

namespace Walk

theorem resume_precedes {τ : Type} {next : τ → Session ρ → α × Session ρ}
    {out : Step τ α × Session ρ}
    (h : ∀ state, out.1 = .more state → out.2.Precedes (next state out.2).2) :
    out.2.Precedes (resume next out).2 := by
  rcases out with ⟨state | a, s⟩
  · exact h state rfl
  · exact .refl s

theorem runFrom_precedes (w : Walk α) (stop : Stop) (state : w.State) (s : Session ρ) :
    s.Precedes (w.runFrom stop state s).2 := by
  refine w.runFrom_induction stop (fun state s ih => ?_) state s
  rw [runFrom_eq]
  exact (Script.run_precedes stop (w.turn state) s).trans (resume_precedes ih)

theorem run_precedes (w : Walk α) (stop : Stop) (s : Session ρ) : s.Precedes (w.run stop s).2 := by
  rw [run_eq]
  exact (Script.run_precedes stop w.start s).trans
    (resume_precedes fun state _ => w.runFrom_precedes stop state _)

end Walk

/-- The checks from the first number up to the second do not fire. -/
def Stop.Passes (stop : Stop) (m k : Nat) : Prop := ∀ i, m ≤ i → i < k → stop i = none

theorem Stop.Passes.refl {stop : Stop} (m : Nat) : stop.Passes m m := by
  intro i hm hi
  exact absurd hm (Nat.not_le_of_lt hi)

theorem Stop.Passes.trans {stop : Stop} {m k l : Nat} (h : stop.Passes m k) (h' : stop.Passes k l) :
    stop.Passes m l := by
  intro i hm hl
  rcases Nat.lt_or_ge i k with hk | hk
  · exact h i hm hk
  · exact h' i hk hl

theorem Stop.Passes.not_lt {stop : Stop} {m k i : Nat} {why : StopReason} (h : stop.Passes m k)
    (hm : m ≤ i) (hi : stop i = some why) : k ≤ i :=
  Nat.le_of_not_lt fun hk => nomatch (h i hm hk).symm.trans hi

theorem Stop.Passes.single {stop : Stop} {m : Nat} (h : stop m = none) : stop.Passes m (m + 1) := by
  intro i hm hi
  rwa [Nat.le_antisymm (Nat.le_of_lt_succ hi) hm]

/-- How a run stands to the same run when nothing stops it. It is either that run, or it ends at the
first check that fires, with a value that tells the reason, and has taken no more than that run. -/
inductive Heeded (T : StopReason → α → Prop) (stop : Stop) (first : Nat) (free cut : α × Session ρ) :
    Prop
  | spared (passes : stop.Passes first free.2.checks) (same : cut = free)
  | stopped {i : Nat} {why : StopReason} (later : first ≤ i) (passes : stop.Passes first i)
    (fires : stop i = some why) (tells : T why cut.1) (checks : cut.2.checks = i + 1)
    (before : cut.2.Precedes free.2)

theorem Heeded.prepend {T : StopReason → α → Prop} {stop : Stop} {m k : Nat}
    {free cut : α × Session ρ} (h : Heeded T stop k free cut) (hmk : m ≤ k)
    (hpasses : stop.Passes m k) : Heeded T stop m free cut := by
  cases h with
  | spared passes same => exact .spared (hpasses.trans passes) same
  | stopped later passes fires tells checks before =>
    exact .stopped (Nat.le_trans hmk later) (hpasses.trans passes) fires tells checks before

/-- A run that has been cut short, by the answer that the host gives to one of the checks. -/
def Stopped (stop : Stop) (T : StopReason → α → Prop) (a : α) : Prop :=
  ∃ i why, stop i = some why ∧ T why a

theorem not_stopped_never (T : StopReason → α → Prop) (a : α) : ¬ Stopped .never T a := by
  rintro ⟨i, why, hi, -⟩
  exact nomatch hi

theorem Heeded.result {T : StopReason → α → Prop} {stop : Stop} {first : Nat}
    {free cut : α × Session ρ} (h : Heeded T stop first free cut) :
    Stopped stop T cut.1 ∨ cut = free := by
  cases h with
  | spared passes same => exact .inr same
  | stopped later passes fires tells checks before => exact .inl ⟨_, _, fires, tells⟩

theorem Heeded.checks_le {T : StopReason → α → Prop} {stop : Stop} {first n : Nat}
    {free cut : α × Session ρ} (h : Heeded T stop first free cut) (hn : first ≤ n)
    (hfires : stop n ≠ none) : cut.2.checks ≤ n + 1 := by
  obtain ⟨why, hwhy⟩ := Option.ne_none_iff_exists'.1 hfires
  have hbound {k : Nat} (passes : stop.Passes first k) : k ≤ n := passes.not_lt hn hwhy
  cases h with
  | spared passes same => exact same ▸ Nat.le_succ_of_le (hbound passes)
  | stopped later passes fires tells checks before => exact checks ▸ Nat.succ_le_succ (hbound passes)

theorem Heeded.checks_congr {σ : Type} [ByteReader σ] {T : StopReason → α → Prop}
    {U : StopReason → β → Prop} {stop : Stop} {first : Nat} {free cut : α × Session ρ}
    {free' cut' : β × Session σ} (h : Heeded T stop first free cut)
    (h' : Heeded U stop first free' cut') (hfree : free.2.checks = free'.2.checks) :
    cut.2.checks = cut'.2.checks := by
  cases h with
  | spared passes same =>
    cases h' with
    | spared passes' same' => rw [same, same', hfree]
    | stopped later' passes' fires' tells' checks' before' =>
      have hfirst := passes.not_lt later' fires'
      have hlast := before'.checks
      omega
  | stopped later passes fires tells checks before =>
    cases h' with
    | spared passes' same' =>
      have hfirst := passes'.not_lt later fires
      have hlast := before.checks
      omega
    | stopped later' passes' fires' tells' checks' before' =>
      have hfirst := passes.not_lt later' fires'
      have hfirst' := passes'.not_lt later fires
      omega

namespace Script

def Ends (Q : α → Prop) : Script α → Prop
  | done a => Q a
  | note _ next => next.Ends Q
  | fetch _ _ | check _ _ => False

theorem Ends.bind {Q : α → Prop} {R : β → Prop} {p : Script α} {f : α → Script β} (hp : p.Ends Q)
    (hf : ∀ a, Q a → (f a).Ends R) : (p >>= f).Ends R := by
  change (p.bind f).Ends R
  induction p with
  | done a => exact hf a hp
  | fetch n next => exact hp.elim
  | check halt next => exact hp.elim
  | note line next ih => exact ih hp

theorem Ends.within {Q : α → Prop} {p : Script α} (hp : p.Ends Q) (limit : Nat) :
    (p.within limit).Ends fun a => Q a.1 := by
  induction p with
  | done a => exact hp
  | fetch n next => exact hp.elim
  | check halt next => exact hp.elim
  | note line next ih => exact ih hp

theorem Ends.exists_notes {Q : α → Prop} {p : Script α} (hp : p.Ends Q) :
    ∃ lines a, Q a ∧ p = List.foldr note (done a) lines := by
  induction p with
  | done a => exact ⟨[], a, hp, rfl⟩
  | fetch n next => exact hp.elim
  | check halt next => exact hp.elim
  | note line next ih =>
    obtain ⟨lines, a, ha, hnext⟩ := ih hp
    exact ⟨line :: lines, a, ha, congrArg (note line) hnext⟩

theorem run_notes (stop : Stop) (lines : List Note) (a : α) (s : Session ρ) :
    ∃ log, (lines.foldr note (done a)).run stop s = (a, { s with log }) := by
  induction lines generalizing s with
  | nil => exact ⟨s.log, rfl⟩
  | cons line lines ih => exact ih { s with log := line :: s.log }

theorem Ends.run (stop : Stop) {Q : α → Prop} {p : Script α} (hp : p.Ends Q) (s : Session ρ) :
    ∃ a log, Q a ∧ p.run stop s = (a, { s with log }) := by
  obtain ⟨lines, a, ha, rfl⟩ := hp.exists_notes
  obtain ⟨log, hrun⟩ := run_notes stop lines a s
  exact ⟨a, log, ha, hrun⟩

theorem ends_notes {Q : α → Prop} (lines : List Note) {a : α} (h : Q a) :
    (lines.foldr note (done a)).Ends Q := by
  induction lines with
  | nil => exact h
  | cons line lines ih => exact ih

/-- A wish to stop ends the script there and then, with a value that tells the reason, and no other
value tells of a stop. -/
def Heeds (T : StopReason → α → Prop) : Script α → Prop
  | done a => ∀ why, ¬ T why a
  | fetch _ next => ∀ h, (next h).Heeds T
  | check halt next => (∀ why, (halt why).Ends (T why)) ∧ next.Heeds T
  | note _ next => next.Heeds T

variable {T : StopReason → α → Prop} {U : StopReason → β → Prop} {p : Script α}

theorem Ends.heeds (hp : p.Ends fun a => ∀ why, ¬ T why a) : p.Heeds T := by
  induction p with
  | done a => exact hp
  | fetch n next => exact hp.elim
  | check halt next => exact hp.elim
  | note line next ih => exact ih hp

theorem Heeds.bind {f : α → Script β} (hp : p.Heeds T)
    (hf : ∀ a, (∀ why, ¬ T why a) → (f a).Heeds U)
    (htold : ∀ why a, T why a → (f a).Ends (U why)) : (p >>= f).Heeds U := by
  change (p.bind f).Heeds U
  induction p with
  | done a => exact hf a hp
  | fetch n next ih => exact fun h => ih h (hp h)
  | check halt next _ ih => exact ⟨fun why => (hp.1 why).bind (htold why), ih hp.2⟩
  | note line next ih => exact ih hp

theorem Heeds.map (f : α → β) (hp : p.Heeds T) (htold : ∀ why a, U why (f a) ↔ T why a) :
    (f <$> p).Heeds U :=
  hp.bind (fun a ha why h => ha why ((htold why a).1 h)) fun why a h => (htold why a).2 h

theorem Heeds.within (hp : p.Heeds T) (limit : Nat) :
    (p.within limit).Heeds fun why a => T why a.1 := by
  induction p generalizing limit with
  | done a => exact hp
  | fetch n next ih => exact fun h => ih h (hp h) _
  | check halt next _ ih => exact ⟨fun why => (hp.1 why).within limit, ih hp.2 limit⟩
  | note line next ih => exact ih hp limit

theorem Heeds.untold (hp : p.Heeds T) (s : Session ρ) (why : StopReason) :
    ¬ T why (p.run .never s).1 := by
  induction p generalizing s with
  | done a => exact hp why
  | fetch n next ih => exact ih _ (hp _) { s with reader := (ByteReader.fetch s.reader n).2 }
  | check halt next _ ih => exact ih hp.2 { s with checks := s.checks + 1 }
  | note line next ih => exact ih hp { s with log := line :: s.log }

theorem Heeds.run (hp : p.Heeds T) (stop : Stop) (s : Session ρ) :
    Heeded T stop s.checks (p.run .never s) (p.run stop s) := by
  induction p generalizing s with
  | done a => exact .spared (.refl _) rfl
  | fetch n next ih => exact ih _ (hp _) { s with reader := (ByteReader.fetch s.reader n).2 }
  | check halt next _ ih =>
    have hnever : (check halt next).run .never s =
        next.run .never { s with checks := s.checks + 1 } := rfl
    rw [hnever, Script.run]
    cases hs : stop s.checks with
    | none => exact (ih hp.2 _).prepend (Nat.le_succ _) (.single hs)
    | some why =>
      obtain ⟨a, log, ha, hhalt⟩ := (hp.1 why).run stop { s with checks := s.checks + 1 }
      have hrest := run_precedes .never next { s with checks := s.checks + 1 }
      dsimp only
      rw [hhalt]
      exact .stopped (Nat.le_refl _) (.refl _) hs ha rfl ⟨hrest.checks, hrest.left⟩
  | note line next ih => exact ih hp { s with log := line :: s.log }

end Script

def Told (why : StopReason) (r : Except ProbeError α) : Prop := r = .error (.stopped why)

theorem told_error {why : StopReason} {e : ProbeError} :
    Told why (.error e : Except ProbeError α) ↔ e = .stopped why :=
  ⟨Except.error.inj, congrArg Except.error⟩

theorem not_told_ok (why : StopReason) (a : α) : ¬ Told why (.ok a) := nofun

theorem Heeded.ok_iff {stop : Stop} {first : Nat} {free cut : Except ProbeError α × Session ρ}
    (h : Heeded Told stop first free cut) (a : α) :
    cut.1 = .ok a ↔ free.1 = .ok a ∧ stop.Passes first free.2.checks := by
  cases h with
  | spared passes same => rw [same, and_iff_left passes]
  | stopped later passes fires tells checks before =>
    constructor
    · exact fun hok => (not_told_ok _ a (hok ▸ tells)).elim
    · rintro ⟨-, hall⟩
      have hfirst := hall.not_lt later fires
      have hlast := before.checks
      omega

def ProbeError.Plain (e : ProbeError) : Prop := ∀ why, e ≠ .stopped why

theorem ProbeError.Plain.untold {e : ProbeError} (h : e.Plain) (why : StopReason) :
    ¬ Told why (.error e : Except ProbeError α) := fun htold => h why (told_error.1 htold)

theorem Script.Heeds.handle {T : StopReason → β → Prop} {p : Script (Except ProbeError α)}
    {f : Except ProbeError α → Script β} (hp : p.Heeds Told) (hok : ∀ a, (f (.ok a)).Heeds T)
    (herror : ∀ e : ProbeError, e.Plain → (f (.error e)).Heeds T)
    (hstop : ∀ why, (f (.error (.stopped why))).Ends (T why)) : (p >>= f).Heeds T := by
  apply hp.bind
  · rintro (e | a) huntold
    · exact herror e fun why he => huntold why (told_error.2 he)
    · exact hok a
  · rintro why r rfl
    exact hstop why

def shortageAt (ending : Option Fault) : ProbeError := ending.elim .endOfData .ofFault

theorem shortageAt_plain (ending : Option Fault) : (shortageAt ending).Plain := by
  intro why
  cases ending with
  | none => exact nofun
  | some fault =>
    rw [shortageAt, Option.elim, ProbeError.ofFault]
    split <;> exact nofun

namespace Step

def Told (T : StopReason → α → Prop) (why : StopReason) : Step σ α → Prop
  | more _ => False
  | done a => T why a

theorem settle_told (why : StopReason) (r : Except ProbeError (Step σ α)) :
    Told ImageProbe.Told why (settle r) ↔ ImageProbe.Told why r := by
  rcases r with e | s | a
  · exact told_error.trans told_error.symm
  · exact ⟨False.elim, not_told_ok why _⟩
  · exact ⟨fun h => (not_told_ok why a h).elim, fun h => (not_told_ok why _ h).elim⟩

end Step

namespace Box

namespace Header

variable (h : Header)

theorem skipRest_heeds (left : Nat) : (h.skipRest left).Heeds Told := by
  unfold skipRest
  split
  · exact (not_told_ok · ())
  · intro haul
    dsimp only
    split
    · exact (Script.ends_notes _ (shortageAt_plain haul.fault).untold).heeds
    · exact (not_told_ok · ())

theorem visit_heeds {T : StopReason → α → Prop} {refused : σ → ProbeError → α}
    (hrefused : ∀ why s e, T why (refused s e) ↔ e = .stopped why)
    {look : Script (Step σ α)} (hlook : look.Heeds (Step.Told T)) :
    (h.visit refused look).Heeds (Step.Told T) := by
  apply (hlook.within h.payload).bind
  · rintro ⟨s | a, left⟩ huntold
    · apply (h.skipRest_heeds left).handle
      · exact fun _ => huntold
      · exact fun e he why htold => he why ((hrefused why s e).1 htold)
      · exact fun why => (hrefused why s _).2 rfl
    · exact (Script.ends_notes _ huntold).heeds
  · rintro why ⟨s | a, left⟩ htold
    · exact htold.elim
    · exact Script.ends_notes _ htold

end Header

end Box

namespace Walk

structure Heeds (w : Walk α) (T : StopReason → α → Prop) : Prop where
  start : w.start.Heeds (Step.Told T)
  round (state : w.State) (bs : Bytes) : (w.round state bs).Heeds (Step.Told T)
  close (state : w.State) (ending : Option Fault) : (w.close state (shortageAt ending)).Heeds T

variable {T : StopReason → α → Prop} {U : StopReason → β → Prop} {w : Walk α} {stop : Stop}

theorem Heeds.ofScript {p : Script α} (hp : p.Heeds T) : (ofScript p).Heeds T where
  start := hp.map _ fun _ _ => .rfl
  round state := state.elim
  close state := state.elim

theorem Heeds.andThen (hw : w.Heeds T) {f : α → Script β}
    (hf : ∀ a, (∀ why, ¬ T why a) → (f a).Heeds U)
    (htold : ∀ why a, T why a → (f a).Ends (U why)) : (w.andThen f).Heeds U := by
  have hthen (x : Step w.State α) (hx : ∀ why, ¬ Step.Told T why x) :
      (thenStep f x).Heeds (Step.Told U) := by
    cases x with
    | more s => exact fun _ => id
    | done a => exact (hf a hx).map _ fun _ _ => .rfl
  have hends (why : StopReason) (x : Step w.State α) (h : Step.Told T why x) :
      (thenStep f x).Ends (Step.Told U why) := by
    cases x with
    | more s => exact h.elim
    | done a => exact (htold why a h).bind fun _ h => h
  exact {
    start := hw.start.bind hthen hends
    round := fun state bs => (hw.round state bs).bind hthen hends
    close := fun state ending => (hw.close state ending).bind hf htold }

theorem Heeds.turn (hw : w.Heeds T) (state : w.State) : (w.turn state).Heeds (Step.Told T) := by
  intro h
  dsimp only
  split
  · exact (hw.close state h.fault).map _ fun _ _ => .rfl
  · exact hw.round state h.bytes

theorem Heeds.untoldFrom (hw : w.Heeds T) (state : w.State) (s : Session ρ) (why : StopReason) :
    ¬ T why (w.runFrom .never state s).1 := by
  refine w.runFrom_induction .never (fun state s ih => ?_) state s
  have hround := (hw.turn state).untold s why
  rw [runFrom_eq]
  rcases hout : (w.turn state).run .never s with ⟨state' | a, s'⟩ <;> rw [hout] at hround ih
  · exact ih state' rfl
  · exact hround

theorem Heeds.untold (hw : w.Heeds T) (s : Session ρ) (why : StopReason) :
    ¬ T why (w.run .never s).1 := by
  have hstart := hw.start.untold s why
  rw [run_eq]
  rcases hout : w.start.run .never s with ⟨state | a, s'⟩ <;> rw [hout] at hstart
  · exact hw.untoldFrom state s' why
  · exact hstart

theorem resume_heeded {τ : Type} {next next' : τ → Session ρ → α × Session ρ} {first : Nat}
    {free cut : Step τ α × Session ρ} (h : Heeded (Step.Told T) stop first free cut)
    (hfirst : first ≤ free.2.checks)
    (hnext : ∀ state (s : Session ρ), s.Precedes (next state s).2)
    (hmore : ∀ state, free.1 = .more state →
      Heeded T stop free.2.checks (next state free.2) (next' state free.2)) :
    Heeded T stop first (resume next free) (resume next' cut) := by
  have hlater : free.2.Precedes (resume next free).2 := resume_precedes fun state _ => hnext state _
  cases h with
  | spared passes same =>
    subst same
    rcases cut with ⟨state | a, s⟩
    · exact (hmore state rfl).prepend hfirst passes
    · exact .spared passes rfl
  | stopped later passes fires tells checks before =>
    rcases cut with ⟨state | a, s⟩
    · exact tells.elim
    · exact .stopped later passes fires tells checks (before.trans hlater)

theorem Heeds.runFrom (hw : w.Heeds T) (stop : Stop) (state : w.State) (s : Session ρ) :
    Heeded T stop s.checks (w.runFrom .never state s) (w.runFrom stop state s) := by
  refine w.runFrom_induction .never (fun state s ih => ?_) state s
  rw [runFrom_eq, runFrom_eq]
  exact resume_heeded ((hw.turn state).run stop s) (Script.run_precedes .never (w.turn state) s).checks
    (w.runFrom_precedes .never) ih

theorem Heeds.run (hw : w.Heeds T) (stop : Stop) (s : Session ρ) :
    Heeded T stop s.checks (w.run .never s) (w.run stop s) := by
  rw [run_eq, run_eq]
  exact resume_heeded (hw.start.run stop s) (Script.run_precedes .never w.start s).checks
    (w.runFrom_precedes .never) fun state _ => hw.runFrom stop state _

end Walk

end ImageProbe
